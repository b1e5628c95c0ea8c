import TorrentEngine.Library.BlockHash
import TorrentEngine.Library.PackedBits

/-! The secure hash algorithm SHA-1: its padding, its message schedule and its eighty rounds, over messages
of whole bytes. -/

namespace SecureHash

open PackedBits

abbrev Word := BitVec 32

/-! ### The round functions -/

def ch (x y z : Word) : Word := (x &&& y) ^^^ (~~~x &&& z)

def parity (x y z : Word) : Word := x ^^^ y ^^^ z

def maj (x y z : Word) : Word := (x &&& y) ^^^ (x &&& z) ^^^ (y &&& z)

def roundFunction (t : Nat) : Word → Word → Word → Word :=
  if t < 20 then ch else if t < 40 then parity else if t < 60 then maj else parity

def roundConstant (t : Nat) : Word :=
  if t < 20 then 0x5A827999#32 else if t < 40 then 0x6ED9EBA1#32
  else if t < 60 then 0x8F1BBCDC#32 else 0xCA62C1D6#32

/-! ### The message -/

/-- Word `t` of a block, the first byte the most significant. -/
def messageWord (block : List UInt8) (t : Nat) : Word :=
  (block.getD (4 * t) 0).toBitVec ++ (block.getD (4 * t + 1) 0).toBitVec ++
    (block.getD (4 * t + 2) 0).toBitVec ++ (block.getD (4 * t + 3) 0).toBitVec

/-- Word `t` of the message schedule. -/
def schedule (block : List UInt8) (t : Nat) : Word :=
  if t < 16 then messageWord block t
  else
    (schedule block (t - 3) ^^^ schedule block (t - 8) ^^^
      schedule block (t - 14) ^^^ schedule block (t - 16)).rotateLeft 1
termination_by t
decreasing_by all_goals omega

/-- The least number of zero bytes that bring a message and its marker to eight bytes short of a whole block. -/
def zeros (length : Nat) : Nat := (119 - length % 64) % 64

/-- The marker bit, the zero bits, and the length in bits as 64 bits. -/
def padding (length : Nat) : List UInt8 :=
  0x80 :: List.replicate (zeros length) 0 ++
    (pieces 8 (BitVec.ofNat 64 (8 * length))).map UInt8.ofBitVec

/-! ### The compression function -/

/-- The working variables. -/
structure Working where
  a : Word
  b : Word
  c : Word
  d : Word
  e : Word

def round (t : Nat) (w : Word) (v : Working) : Working :=
  ⟨v.a.rotateLeft 5 + roundFunction t v.b v.c v.d + v.e + roundConstant t + w,
    v.a, v.b.rotateLeft 30, v.c, v.d⟩

/-- The working variables after the first `t` rounds. -/
def rounds (w : Nat → Word) (v : Working) : Nat → Working
  | 0 => v
  | t + 1 => round t (w t) (rounds w v t)

/-- A chaining value. -/
def chained (a b c d e : Word) : Vector Word 5 := #v[a, b, c, d, e]

def initial : Vector Word 5 := chained 0x67452301#32 0xEFCDAB89#32 0x98BADCFE#32 0x10325476#32 0xC3D2E1F0#32

def added (h : Vector Word 5) (v : Working) : Vector Word 5 :=
  chained (h.get 0 + v.a) (h.get 1 + v.b) (h.get 2 + v.c) (h.get 3 + v.d) (h.get 4 + v.e)

def compress (h : Vector Word 5) (block : List UInt8) : Vector Word 5 :=
  added h (rounds (schedule block) ⟨h.get 0, h.get 1, h.get 2, h.get 3, h.get 4⟩ 80)

/-! ### The digest -/

/-- The chaining value of a padded message. -/
def chaining (padded : List UInt8) : Vector Word 5 := BlockHash.digest 64 compress initial padded

def output (h : Vector Word 5) : List UInt8 := (h.toList.flatMap (pieces 8)).map UInt8.ofBitVec

/-- The secure hash of a message. -/
def sha1 (message : List UInt8) : List UInt8 := output (chaining (message ++ padding message.length))

end SecureHash
