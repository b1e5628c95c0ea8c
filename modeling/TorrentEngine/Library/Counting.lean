import Mathlib.Data.Fintype.Card
import Mathlib.Data.Fintype.Basic

/-! How many elements of a finite type satisfy a predicate, and what this number does when the
predicate changes at one element. -/

namespace Counting

variable {ι : Type*} [Fintype ι]

/-- The number of elements that satisfy the predicate. -/
def count (p : ι → Prop) [DecidablePred p] : Nat := (Finset.univ.filter p).card

variable {p q : ι → Prop} [DecidablePred p] [DecidablePred q]

theorem count_congr (h : ∀ j, p j ↔ q j) : count p = count q := by
  rw [count, count, Finset.filter_congr fun j _ => h j]

theorem count_eq_zero (h : ∀ j, ¬ p j) : count p = 0 := by
  rw [count, Finset.card_eq_zero, Finset.filter_eq_empty_iff]
  exact fun j _ => h j

theorem count_le (h : ∀ j, p j → q j) : count p ≤ count q :=
  Finset.card_le_card fun j hj =>
    Finset.mem_filter.mpr ⟨Finset.mem_univ j, h j (Finset.mem_filter.mp hj).2⟩

theorem count_le_card (p : ι → Prop) [DecidablePred p] : count p ≤ Fintype.card ι :=
  Finset.card_le_univ _

variable [DecidableEq ι]

/-- **Gain.** One element more satisfies the second predicate. -/
theorem count_gain {i : ι} (hoff : ∀ j, j ≠ i → (p j ↔ q j)) (hp : ¬ p i) (hq : q i) :
    count q = count p + 1 := by
  have hfilter : Finset.univ.filter q = insert i (Finset.univ.filter p) := by
    ext j
    rw [Finset.mem_insert, Finset.mem_filter, Finset.mem_filter]
    by_cases hj : j = i
    · subst hj
      simp [hq]
    · simp [hj, hoff j hj]
  rw [count, hfilter, Finset.card_insert_of_notMem (by simp [hp]), count]

/-- **Loss.** One element less satisfies the second predicate. -/
theorem count_loss {i : ι} (hoff : ∀ j, j ≠ i → (p j ↔ q j)) (hp : p i) (hq : ¬ q i) :
    count p = count q + 1 :=
  count_gain (fun j hj => (hoff j hj).symm) hq hp

/-- Nothing changes when the predicates agree at the one element too. -/
theorem count_same {i : ι} (hoff : ∀ j, j ≠ i → (p j ↔ q j)) (hi : p i ↔ q i) :
    count p = count q := by
  refine count_congr fun j => ?_
  by_cases hj : j = i
  · subst hj
    exact hi
  · exact hoff j hj

end Counting
