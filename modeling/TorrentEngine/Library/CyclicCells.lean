import Mathlib.Data.List.Nodup
import Mathlib.Data.List.Perm.Basic
import Mathlib.Data.List.Range
import Mathlib.Data.Nat.ModEq
import Mathlib.Logic.Function.Basic

/-! Runs of cells in a cyclic store of `n` cells, and memories written along such runs. A run may
wrap past the last cell; it is the same list of cells whichever way it is cut into pieces. -/

namespace CyclicCells

/-- The `len` cells from `start` on, in a store of `n` cells that wraps around. -/
def cells (n start len : Nat) : List Nat := (List.range len).map fun i => (start + i) % n

@[simp] theorem cells_zero (n start : Nat) : cells n start 0 = [] := rfl

@[simp] theorem length_cells (n start len : Nat) : (cells n start len).length = len := by
  simp [cells]

theorem cells_add (n start len more : Nat) :
    cells n start (len + more) = cells n start len ++ cells n (start + len) more := by
  simp only [cells, List.range_add, List.map_append, List.map_map]
  congr 1
  apply List.map_congr_left
  intro i _
  simp only [Function.comp_apply, Nat.add_assoc]

/-- A run with one more cell at its end. -/
theorem cells_succ (n start len : Nat) :
    cells n start (len + 1) = cells n start len ++ [(start + len) % n] := cells_add n start len 1

/-- A run with one more cell at its start. -/
theorem cells_succ_left (n start len : Nat) :
    cells n start (len + 1) = start % n :: cells n (start + 1) len := by
  rw [Nat.add_comm len 1, cells_add]
  rfl

theorem cells_mod (n start len : Nat) : cells n (start % n) len = cells n start len := by
  simp only [cells, Nat.mod_add_mod]

theorem cells_add_left (n start len : Nat) : cells n (n + start) len = cells n start len := by
  simp only [cells, Nat.add_assoc, Nat.add_mod_left]

/-- A run that ends before the store does is an interval. -/
theorem cells_eq_range' {n start len : Nat} (h : start + len ≤ n) :
    cells n start len = List.range' start len := by
  rw [List.range'_eq_map_range]
  apply List.map_congr_left
  intro i hi
  have hlt : i < len := List.mem_range.mp hi
  exact Nat.mod_eq_of_lt (by omega)

/-- A run that wraps is an interval up to the end of the store, then one from its first cell. -/
theorem cells_eq_wrap {n start len : Nat} (hstart : start ≤ n) (hend : n ≤ start + len)
    (hlen : len ≤ n) :
    cells n start len = List.range' start (n - start) ++ List.range' 0 (start + len - n) := by
  have hsplit : len = (n - start) + (start + len - n) := by omega
  have hwrap : start + (n - start) = n + 0 := by omega
  rw [hsplit, cells_add, cells_eq_range' (by omega), hwrap, cells_add_left,
    cells_eq_range' (by omega)]
  congr 2
  omega

theorem add_mod_injective {n start i j : Nat} (hi : i < n) (hj : j < n)
    (h : (start + i) % n = (start + j) % n) : i = j := by
  have hmod : i ≡ j [MOD n] := Nat.ModEq.add_left_cancel' start h
  exact Nat.ModEq.eq_of_lt_of_lt hmod hi hj

theorem nodup_cells {n start len : Nat} (hlen : len ≤ n) : (cells n start len).Nodup := by
  refine List.Nodup.map_on ?_ List.nodup_range
  intro i hi j hj h
  have hi' := List.mem_range.mp hi
  have hj' := List.mem_range.mp hj
  exact add_mod_injective (by omega) (by omega) h

/-- A run cut to its first cells. -/
theorem take_cells (n start len k : Nat) (hk : k ≤ len) :
    (cells n start len).take k = cells n start k := by
  obtain ⟨more, rfl⟩ := Nat.exists_eq_add_of_le hk
  rw [cells_add, List.take_left' (length_cells n start k)]

section Memory

variable {α : Type*}

/-- The memory after the values have been written to the cells, one value a cell, in order. -/
def store (memory : Nat → α) : List Nat → List α → Nat → α
  | c :: cs, v :: vs => store (Function.update memory c v) cs vs
  | _, _ => memory

theorem store_of_not_mem (memory : Nat → α) (cs : List Nat) (vs : List α) {c : Nat} (hc : c ∉ cs) :
    store memory cs vs c = memory c := by
  induction cs generalizing memory vs with
  | nil => rfl
  | cons d cs ih =>
      cases vs with
      | nil => rfl
      | cons v vs =>
          rw [store, ih _ _ (fun h => hc (List.mem_cons_of_mem _ h))]
          exact Function.update_of_ne (fun h : c = d => hc (h ▸ List.mem_cons_self)) v memory

theorem map_store_of_disjoint (memory : Nat → α) (cs ds : List Nat) (vs : List α)
    (h : ∀ c ∈ ds, c ∉ cs) : ds.map (store memory cs vs) = ds.map memory :=
  List.map_congr_left fun c hc => store_of_not_mem memory cs vs (h c hc)

/-- Distinct cells hold the values written to them. -/
theorem map_store (memory : Nat → α) (cs : List Nat) (vs : List α) (hnodup : cs.Nodup)
    (hlength : vs.length = cs.length) : cs.map (store memory cs vs) = vs := by
  induction cs generalizing memory vs with
  | nil =>
      rw [List.length_eq_zero_iff.mp hlength]
      rfl
  | cons d cs ih =>
      cases vs with
      | nil => simp at hlength
      | cons v vs =>
          obtain ⟨hd, hcs⟩ := List.nodup_cons.mp hnodup
          rw [List.map_cons, store, store_of_not_mem _ _ _ hd, Function.update_self,
            ih _ vs hcs (by simpa using hlength)]

/-- A value written to the cell behind a run. -/
theorem map_update_end (memory : Nat → α) {n start len : Nat} (hlen : len < n) (v : α) :
    (cells n start (len + 1)).map (Function.update memory ((start + len) % n) v) =
      (cells n start len).map memory ++ [v] := by
  have hnodup : (cells n start (len + 1)).Nodup := nodup_cells hlen
  rw [cells_succ] at hnodup ⊢
  rw [List.map_append, List.map_singleton, Function.update_self]
  congr 1
  apply List.map_congr_left
  intro c hc
  apply Function.update_of_ne
  rintro rfl
  exact (List.nodup_append.mp hnodup).2.2 _ hc _ (List.mem_singleton_self _) rfl

/-- Cells past the last value are left alone. -/
theorem store_take (memory : Nat → α) (cs : List Nat) (vs : List α) :
    store memory (cs.take vs.length) vs = store memory cs vs := by
  induction cs generalizing memory vs with
  | nil => rw [List.take_nil]
  | cons d cs ih =>
      cases vs with
      | nil => rfl
      | cons v vs => exact ih _ vs

/-- Writing one run of cells after another. -/
theorem store_append (memory : Nat → α) (cs ds : List Nat) (vs ws : List α)
    (hlength : vs.length = cs.length) :
    store memory (cs ++ ds) (vs ++ ws) = store (store memory cs vs) ds ws := by
  induction cs generalizing memory vs with
  | nil =>
      rw [List.length_eq_zero_iff.mp hlength]
      rfl
  | cons c cs ih =>
      cases vs with
      | nil => cases hlength
      | cons v vs =>
          rw [List.cons_append, List.cons_append, store, store]
          exact ih _ _ (Nat.succ_injective hlength)

end Memory

end CyclicCells
