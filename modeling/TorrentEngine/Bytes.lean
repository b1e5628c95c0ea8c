import Mathlib.Algebra.Group.Nat.Defs
import Mathlib.Data.List.Basic
import Mathlib.Data.List.Lex
import Mathlib.Order.Basic
import Mathlib.Order.Lattice

/-! Bytes, and the byte strings a `std::string` can hold. -/

namespace TorrentEngine

abbrev Byte := UInt8

/-- The byte a character literal of the source stands for. -/
def ascii (c : Char) : Byte := UInt8.ofNat c.toNat

/-- A `std::string`. Its size is at most `max_size()`, the largest `ptrdiff_t`. -/
@[ext] structure ByteString where
  bytes : List Byte
  size_lt : bytes.length < 2 ^ 63
  deriving DecidableEq

namespace ByteString

def empty : ByteString := ⟨[], by decide⟩

def size (s : ByteString) : Nat := s.bytes.length

/-- Strings compare as `char_traits<char>` compares them: byte by byte, as unsigned numbers. -/
instance : LinearOrder ByteString :=
  LinearOrder.lift' (fun s : ByteString => s.bytes.map UInt8.toNat) (by
    intro s t h
    exact ByteString.ext (List.map_injective_iff.mpr (fun a b hab => UInt8.toNat_inj.mp hab) h))

end ByteString

end TorrentEngine
