import TorrentEngine.BencodeData

/-! Access to decoded values: `ben::find`, `data::get_as`, and how a call can end without returning. -/

namespace TorrentEngine

/-- An exception that leaves a call, or `undefined` where the call has no defined behaviour. -/
inductive Fault where
  | badVariantAccess
  | invalidTorrentFile
  | runtimeError (what : String)
  | filesystemError
  | undefined
  deriving DecidableEq, Repr

theorem Except.bind_eq_ok {ε α β : Type} {x : Except ε α} {f : α → Except ε β} {b : β} :
    x >>= f = .ok b ↔ ∃ a, x = .ok a ∧ f a = .ok b := by
  cases x with
  | error e => simp [bind, Except.bind]
  | ok a => simp [bind, Except.bind]

theorem Except.toOption_eq_some {ε α : Type} {x : Except ε α} {a : α} : x.toOption = some a ↔ x = .ok a := by
  cases x with
  | error e => exact ⟨nofun, nofun⟩
  | ok a => exact ⟨fun h => congrArg Except.ok (Option.some.inj h), fun h => congrArg some (Except.ok.inj h)⟩

theorem Except.bind_eq_error {ε α β : Type} {x : Except ε α} {f : α → Except ε β} {e : ε} :
    x >>= f = .error e ↔ x = .error e ∨ ∃ a, x = .ok a ∧ f a = .error e := by
  cases x with
  | error e' => simp [bind, Except.bind]
  | ok a => simp [bind, Except.bind]

/-- A string literal of the source. -/
def ByteString.ofString (s : String) : ByteString :=
  ⟨(s.toList.map ascii).take (2 ^ 63 - 1), (List.length_take_le _ _).trans_lt (by decide)⟩

namespace Bencode

open OrderedEntries

/-- `decoded_type::dictionary`. -/
abbrev Dictionary := List (ByteString × Data)

def find (key : String) (map : Dictionary) : Option Data :=
  OrderedEntries.find (ByteString.ofString key) map

def contains (key : String) (map : Dictionary) : Bool := (find key map).isSome

/-- `(*map.find(key)).second`, undefined where the key is missing. -/
def dereference (key : String) (map : Dictionary) : Except Fault Data :=
  match find key map with
  | some d => .ok d
  | none => .error .undefined

namespace Data

def getAsInteger : Data → Except Fault Int64
  | .integer value _ => .ok value
  | _ => .error .badVariantAccess

def getAsString : Data → Except Fault ByteString
  | .string value _ => .ok value
  | _ => .error .badVariantAccess

def getAsList : Data → Except Fault (List Data)
  | .list value _ => .ok value
  | _ => .error .badVariantAccess

def getAsDictionary : Data → Except Fault Dictionary
  | .dictionary value _ => .ok value
  | _ => .error .badVariantAccess

end Data

theorem dereference_eq_ok {key : String} {map : Dictionary} {d : Data} :
    dereference key map = .ok d ↔ find key map = some d := by
  rw [dereference]
  cases find key map with
  | none => simp
  | some found => simp

theorem dereference_eq_error {key : String} {map : Dictionary} {fault : Fault} :
    dereference key map = .error fault ↔ contains key map = false ∧ fault = .undefined := by
  rw [dereference, contains]
  cases find key map with
  | none => simp [eq_comm]
  | some found => simp

theorem Data.getAsInteger_eq_error {d : Data} {fault : Fault} (h : d.getAsInteger = .error fault) :
    fault = .badVariantAccess := by
  cases d <;> cases h <;> rfl

theorem Data.getAsString_eq_error {d : Data} {fault : Fault} (h : d.getAsString = .error fault) :
    fault = .badVariantAccess := by
  cases d <;> cases h <;> rfl

theorem Data.getAsList_eq_error {d : Data} {fault : Fault} (h : d.getAsList = .error fault) :
    fault = .badVariantAccess := by
  cases d <;> cases h <;> rfl

theorem Data.getAsDictionary_eq_error {d : Data} {fault : Fault} (h : d.getAsDictionary = .error fault) :
    fault = .badVariantAccess := by
  cases d <;> cases h <;> rfl

theorem Data.getAsInteger_eq_ok {d : Data} {n : Int64} :
    d.getAsInteger = .ok n ↔ ∃ p, d = .integer n p := by
  cases d <;> simp [getAsInteger]

theorem Data.getAsString_eq_ok {d : Data} {s : ByteString} :
    d.getAsString = .ok s ↔ ∃ p, d = .string s p := by
  cases d <;> simp [getAsString]

theorem Data.getAsList_eq_ok {d : Data} {items : List Data} :
    d.getAsList = .ok items ↔ ∃ p, d = .list items p := by
  cases d <;> simp [getAsList]

theorem Data.getAsDictionary_eq_ok {d : Data} {entries : Dictionary} :
    d.getAsDictionary = .ok entries ↔ ∃ p, d = .dictionary entries p := by
  cases d <;> simp [getAsDictionary]

theorem find_mem {key : String} {map : Dictionary} {d : Data} (h : find key map = some d) :
    d ∈ map.map Prod.snd := by
  obtain ⟨entry, hentry, rfl⟩ := Option.map_eq_some_iff.mp h
  exact List.mem_map_of_mem (List.mem_of_find?_eq_some hentry)

end Bencode

end TorrentEngine
