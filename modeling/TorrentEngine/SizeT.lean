import Mathlib.Algebra.Group.Int.Defs
import Mathlib.Algebra.Group.Nat.Defs
import Mathlib.Data.Nat.Init

/-! `std::size_t`: unsigned numbers of 64 bits, whose arithmetic wraps. A value is held as the natural
number it is. -/

namespace TorrentEngine.SizeT

/-- The conversion of a signed integer. -/
def ofInt (n : Int) : Nat := (n % 2 ^ 64).toNat

/-- The conversion to an `int`, which keeps the lowest 32 bits. -/
def toInt32 (n : Nat) : Int := (n : Int).bmod (2 ^ 32)

def add (a b : Nat) : Nat := (a + b) % 2 ^ 64

def sub (a b : Nat) : Nat := (a + (2 ^ 64 - b % 2 ^ 64)) % 2 ^ 64

def mul (a b : Nat) : Nat := a * b % 2 ^ 64

/-- `++n`. -/
def inc (n : Nat) : Nat := (n + 1) % 2 ^ 64

/-- `--n`. -/
def dec (n : Nat) : Nat := (2 ^ 64 - 1 + n) % 2 ^ 64

theorem ofInt_of_nonneg {n : Int} (hn : 0 ≤ n) (hlt : n < 2 ^ 64) : ofInt n = n.toNat := by
  rw [ofInt, Int.emod_eq_of_lt hn hlt]

theorem toInt32_of_lt {n : Nat} (h : n < 2 ^ 31) : toInt32 n = n := by
  apply Int.bmod_eq_of_le
  · omega
  · omega

theorem toInt32_of_low {n : Nat} (h : n % 2 ^ 32 < 2 ^ 31) : toInt32 n = (n % 2 ^ 32 : Nat) := by
  have hdef := @Int.bmod_def n (2 ^ 32)
  rw [if_pos (by omega)] at hdef
  exact hdef

theorem toInt32_of_high {n : Nat} (h : 2 ^ 31 ≤ n % 2 ^ 32) :
    toInt32 n = (n % 2 ^ 32 : Nat) - 2 ^ 32 := by
  have hdef := @Int.bmod_def n (2 ^ 32)
  rw [if_neg (by omega)] at hdef
  exact hdef

/-- The conversion keeps a number up to a multiple of `2 ^ 32`. -/
theorem toInt32_spec (n : Nat) :
    ∃ wraps : Int, (n : Int) = toInt32 n + 2 ^ 32 * wraps ∧ -2 ^ 31 ≤ toInt32 n ∧ toInt32 n < 2 ^ 31 := by
  refine ⟨((n : Int) - toInt32 n) / 2 ^ 32, ?_⟩
  rcases Nat.lt_or_ge (n % 2 ^ 32) (2 ^ 31) with hlow | hhigh
  · have hvalue := toInt32_of_low hlow
    omega
  · have hvalue := toInt32_of_high hhigh
    omega

theorem le_ofInt_of_neg {n : Int} (hneg : n < 0) (hge : -2 ^ 63 ≤ n) : 2 ^ 63 ≤ ofInt n := by
  have hdef : ofInt n = (n % 2 ^ 64).toNat := rfl
  omega

/-- A conversion to `int` and back keeps the lowest 32 bits where the sign bit is clear. -/
theorem ofInt_toInt32_of_low {n : Nat} (h : n % 2 ^ 32 < 2 ^ 31) :
    ofInt (toInt32 n) = n % 2 ^ 32 := by
  rw [toInt32_of_low h, ofInt_of_nonneg (by omega) (by omega), Int.toNat_natCast]

/-- Where the sign bit is set it is extended. -/
theorem le_ofInt_toInt32 {n : Nat} (h : 2 ^ 31 ≤ n % 2 ^ 32) : 2 ^ 63 ≤ ofInt (toInt32 n) := by
  have hvalue := toInt32_of_high h
  have hdef : ofInt (toInt32 n) = (toInt32 n % 2 ^ 64).toNat := rfl
  omega

/-- A conversion to `int` and back keeps the numbers that are an `int`, and no other address. -/
theorem ofInt_toInt32_eq_iff {n : Nat} (hn : n < 2 ^ 63) : ofInt (toInt32 n) = n ↔ n < 2 ^ 31 := by
  rcases Nat.lt_or_ge (n % 2 ^ 32) (2 ^ 31) with hlow | hhigh
  · have hback := ofInt_toInt32_of_low hlow
    omega
  · have hback := le_ofInt_toInt32 hhigh
    omega

theorem add_of_lt {a b : Nat} (h : a + b < 2 ^ 64) : add a b = a + b := Nat.mod_eq_of_lt h

theorem sub_of_le {a b : Nat} (hle : b ≤ a) (hlt : a < 2 ^ 64) : sub a b = a - b := by
  rw [sub]
  omega

theorem mul_of_lt {a b : Nat} (h : a * b < 2 ^ 64) : mul a b = a * b := Nat.mod_eq_of_lt h

theorem inc_of_lt {n : Nat} (h : n + 1 < 2 ^ 64) : inc n = n + 1 := Nat.mod_eq_of_lt h

theorem dec_of_pos {n : Nat} (hpos : 0 < n) (hlt : n < 2 ^ 64) : dec n = n - 1 := by
  rw [dec]
  omega

end TorrentEngine.SizeT
