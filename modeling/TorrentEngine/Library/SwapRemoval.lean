import Mathlib.Data.List.Nodup

/-! A vector from which elements are removed by moving the last one into their place, and the loop that
goes through the cells of such a vector while it removes elements. A cell past the end keeps its value, so
the loop meets every element the vector held at first, once and in order. -/

namespace SwapRemoval

variable {α : Type*}

/-- The vector after the last element has taken the place of the one at `k`. -/
def removeAt (xs : List α) (k : Nat) : List α :=
  match xs.getLast? with
  | none => []
  | some last => (xs.set k last).dropLast

theorem length_removeAt (xs : List α) (k : Nat) : (removeAt xs k).length = xs.length - 1 := by
  rw [removeAt]
  split
  · rename_i hnone
    rw [List.getLast?_eq_none_iff.mp hnone]
    rfl
  · rw [List.length_dropLast, List.length_set]

theorem getElem?_removeAt (xs : List α) (k j : Nat) (hj : j + 1 < xs.length) :
    (removeAt xs k)[j]? = if j = k then xs.getLast? else xs[j]? := by
  obtain ⟨last, hlast⟩ : ∃ last, xs.getLast? = some last :=
    Option.isSome_iff_exists.mp (by
      rw [List.getLast?_isSome]
      rintro rfl
      cases hj)
  rw [removeAt, hlast]
  dsimp only
  rw [List.getElem?_dropLast, List.length_set, if_pos (by omega), List.getElem?_set]
  by_cases hk : k = j
  · rw [if_pos hk, if_pos hk.symm, if_pos (by omega)]
  · rw [if_neg hk, if_neg (Ne.symm hk)]

/-- What was removed is gone, and the rest is there. -/
theorem mem_removeAt {xs : List α} {k : Nat} {x y : α} (hnodup : xs.Nodup) (hx : xs[k]? = some x) :
    y ∈ removeAt xs k ↔ y ∈ xs ∧ y ≠ x := by
  obtain ⟨hk, hget⟩ := List.getElem?_eq_some_iff.mp hx
  have hlast : xs.getLast? = xs[xs.length - 1]? := List.getLast?_eq_getElem?
  constructor
  · intro hy
    obtain ⟨j, hj⟩ := List.mem_iff_getElem?.mp hy
    obtain ⟨hlt, -⟩ := List.getElem?_eq_some_iff.mp hj
    rw [length_removeAt] at hlt
    rw [getElem?_removeAt xs k j (by omega)] at hj
    split at hj
    · rename_i heq
      rw [hlast] at hj
      refine ⟨List.mem_iff_getElem?.mpr ⟨_, hj⟩, ?_⟩
      rintro rfl
      have := (List.nodup_iff_getElem?_ne_getElem?.mp hnodup) k (xs.length - 1) (by omega) (by omega)
      exact this (hx.trans hj.symm)
    · rename_i hne
      refine ⟨List.mem_iff_getElem?.mpr ⟨_, hj⟩, ?_⟩
      rintro rfl
      rcases Nat.lt_or_gt_of_ne hne with h | h
      · exact (List.nodup_iff_getElem?_ne_getElem?.mp hnodup) j k h hk (hj.trans hx.symm)
      · exact (List.nodup_iff_getElem?_ne_getElem?.mp hnodup) k j h (by omega) (hx.trans hj.symm)
  · rintro ⟨hy, hne⟩
    obtain ⟨j, hj⟩ := List.mem_iff_getElem?.mp hy
    obtain ⟨hlt, -⟩ := List.getElem?_eq_some_iff.mp hj
    have hjk : j ≠ k := by
      rintro rfl
      exact hne (Option.some.inj (hj.symm.trans hx))
    rw [List.mem_iff_getElem?]
    by_cases hend : j + 1 < xs.length
    · exact ⟨j, by rw [getElem?_removeAt xs k j hend, if_neg hjk, hj]⟩
    · refine ⟨k, ?_⟩
      rw [getElem?_removeAt xs k k (by omega), if_pos rfl, hlast, ← hj]
      congr 1
      omega

theorem nodup_removeAt {xs : List α} (hnodup : xs.Nodup) (k : Nat) (hk : k < xs.length) :
    (removeAt xs k).Nodup := by
  have hlast : xs.getLast? = xs[xs.length - 1]? := List.getLast?_eq_getElem?
  rw [List.nodup_iff_getElem?_ne_getElem?]
  intro i j hij hj heq
  rw [length_removeAt] at hj
  rw [getElem?_removeAt xs k i (by omega), getElem?_removeAt xs k j (by omega)] at heq
  have hinj := List.nodup_iff_getElem?_ne_getElem?.mp hnodup
  split at heq
  · rw [if_neg (by omega), hlast] at heq
    exact hinj j (xs.length - 1) (by omega) (by omega) heq.symm
  · split at heq
    · rw [hlast] at heq
      exact hinj i (xs.length - 1) (by omega) (by omega) heq
    · exact hinj i j hij (by omega) heq

/-! ### The loop -/

/-- The loop is about to read cell `i`: the vector now is the first part of the cells, the cells from `i`
on are those at first, and what they hold is in the vector, no further back. -/
structure Sweep (first now cells : List α) (i : Nat) : Prop where
  begins : now <+: cells
  ahead : ∀ j, i ≤ j → cells[j]? = first[j]?
  early : ∀ j x, i ≤ j → first[j]? = some x → ∃ k ≤ j, now[k]? = some x

theorem Sweep.start (xs : List α) : Sweep xs xs xs 0 where
  begins := List.prefix_refl xs
  ahead _ _ := rfl
  early j _ _ hx := ⟨j, Nat.le_refl j, hx⟩

/-- The cells after the vector has changed in place. -/
def cellsAfter (now cells : List α) : List α := now ++ cells.drop now.length

variable {first now cells : List α} {i : Nat} {x : α}

theorem cellsAfter_eq (h : now <+: cells) : cellsAfter now cells = cells :=
  List.prefix_iff_eq_append.mp h

/-- A turn that removes nothing. -/
theorem Sweep.keep (h : Sweep first now cells i) : Sweep first now (cellsAfter now cells) (i + 1) := by
  rw [cellsAfter_eq h.begins]
  exact ⟨h.begins, fun j hj => h.ahead j (by omega), fun j x hj => h.early j x (by omega)⟩

/-- The element in the cell is in the vector, no further back. -/
theorem Sweep.current (h : Sweep first now cells i) (hx : cells[i]? = some x) :
    first[i]? = some x ∧ ∃ k ≤ i, now[k]? = some x := by
  have hfirst : first[i]? = some x := (h.ahead i (Nat.le_refl i)).symm.trans hx
  exact ⟨hfirst, h.early i x (Nat.le_refl i) hfirst⟩

/-- A turn that removes the element it read. -/
theorem Sweep.remove (h : Sweep first now cells i) (hfirst : first.Nodup) (hnow : now.Nodup) {k : Nat}
    (hx : cells[i]? = some x) (hk : now[k]? = some x) :
    Sweep first (removeAt now k) (cellsAfter (removeAt now k) cells) (i + 1) := by
  obtain ⟨hfx, k', hk', hat⟩ := h.current hx
  obtain ⟨hklt, -⟩ := List.getElem?_eq_some_iff.mp hk
  obtain ⟨hklt', -⟩ := List.getElem?_eq_some_iff.mp hat
  have hsame : k' = k := by
    by_contra hne
    rcases Nat.lt_or_gt_of_ne hne with hlt | hlt
    · exact List.nodup_iff_getElem?_ne_getElem?.mp hnow k' k hlt hklt (hat.trans hk.symm)
    · exact List.nodup_iff_getElem?_ne_getElem?.mp hnow k k' hlt hklt' (hk.trans hat.symm)
  subst hsame
  have hlength := length_removeAt now k'
  refine ⟨List.prefix_append _ _, fun j hj => ?_, fun j y hj hy => ?_⟩
  · rw [cellsAfter, List.getElem?_append, hlength]
    split
    · rename_i hlt
      rw [getElem?_removeAt now k' j (by omega), if_neg (by omega), ← h.ahead j (by omega)]
      obtain ⟨rest, rfl⟩ := h.begins
      rw [List.getElem?_append_left (by omega)]
    · rename_i hge
      rw [List.getElem?_drop, ← h.ahead j (by omega)]
      congr 1
      omega
  · have hne : y ≠ x := by
      rintro rfl
      obtain ⟨hjlt, -⟩ := List.getElem?_eq_some_iff.mp hy
      exact List.nodup_iff_getElem?_ne_getElem?.mp hfirst i j (by omega) hjlt (hfx.trans hy.symm)
    obtain ⟨m, hm, hym⟩ := h.early j y (by omega) hy
    obtain ⟨hmlt, -⟩ := List.getElem?_eq_some_iff.mp hym
    by_cases hend : m + 1 < now.length
    · refine ⟨m, hm, ?_⟩
      rw [getElem?_removeAt now k' m hend, if_neg, hym]
      rintro rfl
      exact hne (Option.some.inj (hym.symm.trans hk))
    · have hmk : m ≠ k' := by
        rintro rfl
        exact hne (Option.some.inj (hym.symm.trans hk))
      refine ⟨k', by omega, ?_⟩
      rw [getElem?_removeAt now k' k' (by omega), if_pos rfl, List.getLast?_eq_getElem?, ← hym]
      congr 1
      omega

end SwapRemoval
