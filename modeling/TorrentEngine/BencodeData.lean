import TorrentEngine.Bytes
import TorrentEngine.Library.OrderedEntries

/-! The decoded form of bencode: `ben::data`, each value with the place it was read from, and the plain
value trees under it. A dictionary is a `std::map`, held as its entries in ascending key order. -/

namespace TorrentEngine.Bencode

open OrderedEntries

/-- `source_stats_t`: where in the source a value's encoding starts, and its size. -/
structure SourceStats where
  start : Nat
  size : Nat
  deriving DecidableEq, Repr

/-- `ben::data`. -/
inductive Data where
  | integer (value : Int64) (positionInSource : SourceStats)
  | string (value : ByteString) (positionInSource : SourceStats)
  | list (value : List Data) (positionInSource : SourceStats)
  | dictionary (value : List (ByteString × Data)) (positionInSource : SourceStats)

/-- A value tree, without positions. -/
inductive Value where
  | integer (value : Int64)
  | string (value : ByteString)
  | list (items : List Value)
  | dictionary (pairs : List (ByteString × Value))

namespace Data

def positionInSource : Data → SourceStats
  | .integer _ position => position
  | .string _ position => position
  | .list _ position => position
  | .dictionary _ position => position

/-- The values directly inside a value. -/
def children : Data → List Data
  | .integer _ _ => []
  | .string _ _ => []
  | .list items _ => items
  | .dictionary entries _ => entries.map Prod.snd

/-- A value at any depth of another, the value itself included. -/
inductive Within : Data → Data → Prop
  | self (d : Data) : Within d d
  | child {d c inner : Data} : c ∈ d.children → Within inner c → Within inner d

mutual

/-- The tree without its positions. -/
def erase : Data → Value
  | .integer n _ => .integer n
  | .string s _ => .string s
  | .list items _ => .list (eraseItems items)
  | .dictionary entries _ => .dictionary (eraseEntries entries)

def eraseItems : List Data → List Value
  | [] => []
  | d :: ds => erase d :: eraseItems ds

def eraseEntries : List (ByteString × Data) → List (ByteString × Value)
  | [] => []
  | (key, d) :: entries => (key, erase d) :: eraseEntries entries

end

mutual

/-- The same tree read `offset` bytes later. -/
def shift (offset : Nat) : Data → Data
  | .integer n p => .integer n ⟨p.start + offset, p.size⟩
  | .string s p => .string s ⟨p.start + offset, p.size⟩
  | .list items p => .list (shiftItems offset items) ⟨p.start + offset, p.size⟩
  | .dictionary entries p => .dictionary (shiftEntries offset entries) ⟨p.start + offset, p.size⟩

def shiftItems (offset : Nat) : List Data → List Data
  | [] => []
  | d :: ds => shift offset d :: shiftItems offset ds

def shiftEntries (offset : Nat) : List (ByteString × Data) → List (ByteString × Data)
  | [] => []
  | (key, d) :: entries => (key, shift offset d) :: shiftEntries offset entries

end

theorem eraseEntries_eq_mapValues (entries : List (ByteString × Data)) :
    eraseEntries entries = mapValues erase entries := by
  induction entries with
  | nil => rfl
  | cons entry entries ih =>
      rw [eraseEntries, ih]
      rfl

theorem shiftEntries_eq_mapValues (offset : Nat) (entries : List (ByteString × Data)) :
    shiftEntries offset entries = mapValues (shift offset) entries := by
  induction entries with
  | nil => rfl
  | cons entry entries ih =>
      rw [shiftEntries, ih]
      rfl

end Data

end TorrentEngine.Bencode
