import Mathlib.Data.Nat.Digits.Lemmas

/-! Decimal numerals as ASCII bytes: printing a natural number, the value of a digit string, and the
digit strings without a leading zero, which are the printed positive numbers. -/

namespace Decimal

def digitZero : UInt8 := 48

def minus : UInt8 := 45

def isDigit (b : UInt8) : Bool := 48 ≤ b.toNat && b.toNat ≤ 57

def digitByte (d : Nat) : UInt8 := UInt8.ofNat (48 + d)

def digitValue (b : UInt8) : Nat := b.toNat - 48

/-- The digits of a number, the most significant first. -/
def print (n : Nat) : List UInt8 :=
  if n = 0 then [digitZero] else ((Nat.digits 10 n).reverse).map digitByte

/-- The number a digit string stands for. -/
def value (ds : List UInt8) : Nat := Nat.ofDigits 10 (ds.reverse.map digitValue)

/-- A digit string that does not start with a zero. -/
structure NonzeroLeading (ds : List UInt8) : Prop where
  ne_nil : ds ≠ []
  digits : ∀ b ∈ ds, isDigit b = true
  head_ne : ds.head? ≠ some digitZero

theorem digitByte_toNat {d : Nat} (hd : d < 10) : (digitByte d).toNat = 48 + d := by
  rw [digitByte, UInt8.toNat_ofNat']
  exact Nat.mod_eq_of_lt (by omega)

theorem isDigit_digitByte {d : Nat} (hd : d < 10) : isDigit (digitByte d) = true := by
  rw [isDigit, digitByte_toNat hd, Bool.and_eq_true, decide_eq_true_iff, decide_eq_true_iff]
  omega

theorem digitValue_digitByte {d : Nat} (hd : d < 10) : digitValue (digitByte d) = d := by
  rw [digitValue, digitByte_toNat hd]
  omega

theorem isDigit_ne_minus {b : UInt8} (hb : isDigit b = true) : b ≠ minus := by
  rintro rfl
  exact absurd hb (by decide)

theorem print_of_ne_zero {n : Nat} (hn : n ≠ 0) :
    print n = ((Nat.digits 10 n).reverse).map digitByte := if_neg hn

theorem print_nonzeroLeading {n : Nat} (hn : n ≠ 0) : NonzeroLeading (print n) := by
  have hne : Nat.digits 10 n ≠ [] := Nat.digits_ne_nil_iff_ne_zero.mpr hn
  rw [print_of_ne_zero hn]
  refine ⟨by simpa using hne, ?_, ?_⟩
  · intro b hb
    obtain ⟨d, hd, rfl⟩ := List.mem_map.mp hb
    exact isDigit_digitByte (Nat.digits_lt_base (by decide) (List.mem_reverse.mp hd))
  · rw [List.head?_map, List.head?_reverse, List.getLast?_eq_getLast_of_ne_nil hne]
    simp only [Option.map_some, ne_eq, Option.some.injEq]
    intro hzero
    have hlast := Nat.getLast_digit_ne_zero 10 hn
    have hlt : (Nat.digits 10 n).getLast hne < 10 :=
      Nat.digits_lt_base (by decide) (List.getLast_mem hne)
    have := congrArg digitValue hzero
    rw [digitValue_digitByte hlt] at this
    exact hlast this

theorem value_print (n : Nat) : value (print n) = n := by
  by_cases hn : n = 0
  · subst hn
    rfl
  · rw [value, print_of_ne_zero hn, ← List.map_reverse, List.reverse_reverse, List.map_map]
    have hid : (Nat.digits 10 n).map (digitValue ∘ digitByte) = Nat.digits 10 n := by
      refine (List.map_congr_left ?_).trans (List.map_id _)
      intro d hd
      exact digitValue_digitByte (Nat.digits_lt_base (by decide) hd)
    rw [hid, Nat.ofDigits_digits]

theorem digitValue_lt {b : UInt8} (hb : isDigit b = true) : digitValue b < 10 := by
  rw [isDigit, Bool.and_eq_true, decide_eq_true_iff, decide_eq_true_iff] at hb
  rw [digitValue]
  omega

theorem digitByte_digitValue {b : UInt8} (hb : isDigit b = true) : digitByte (digitValue b) = b := by
  apply UInt8.toNat_inj.mp
  rw [digitByte_toNat (digitValue_lt hb), digitValue]
  rw [isDigit, Bool.and_eq_true, decide_eq_true_iff, decide_eq_true_iff] at hb
  omega

/-- A digit string without leading zeros holds the digits of its value. -/
theorem NonzeroLeading.digits_value {ds : List UInt8} (h : NonzeroLeading ds) :
    Nat.digits 10 (value ds) = ds.reverse.map digitValue := by
  rw [value]
  apply Nat.digits_ofDigits 10 (by decide)
  · intro d hd
    obtain ⟨b, hb, rfl⟩ := List.mem_map.mp hd
    exact digitValue_lt (h.digits b (List.mem_reverse.mp hb))
  · intro hne
    obtain ⟨b, tail, rfl⟩ := List.exists_cons_of_ne_nil h.ne_nil
    simp only [List.reverse_cons, List.map_append, List.map_cons, List.map_nil,
      List.getLast_append_singleton]
    intro hzero
    have hb := digitByte_digitValue (h.digits b List.mem_cons_self)
    rw [hzero] at hb
    apply h.head_ne
    rw [List.head?_cons, ← hb]
    rfl

theorem NonzeroLeading.value_pos {ds : List UInt8} (h : NonzeroLeading ds) : 0 < value ds := by
  apply Nat.pos_of_ne_zero
  intro hzero
  have hdigits := h.digits_value
  rw [hzero, Nat.digits_zero, eq_comm, List.map_eq_nil_iff, List.reverse_eq_nil_iff] at hdigits
  exact h.ne_nil hdigits

/-- A digit string without leading zeros is the one printed for its value. -/
theorem NonzeroLeading.print_value {ds : List UInt8} (h : NonzeroLeading ds) :
    print (value ds) = ds := by
  rw [print_of_ne_zero h.value_pos.ne', h.digits_value, ← List.map_reverse,
    List.reverse_reverse, List.map_map]
  refine (List.map_congr_left ?_).trans (List.map_id _)
  intro b hb
  exact digitByte_digitValue (h.digits b hb)

end Decimal
