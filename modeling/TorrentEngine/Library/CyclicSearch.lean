import Mathlib.Data.List.Rotate
import Mathlib.Data.List.Nodup

/-! The search of a ring for the next cell with a property. From a cell that has it the search goes to the
next of those cells, in their order and in a circle. -/

namespace CyclicSearch

variable (p : Nat → Bool) (n : Nat)

/-- The cell behind this one, in a ring of `n` cells. -/
def after (i : Nat) : Nat := if i + 1 ≥ n then 0 else i + 1

/-- The first cell with the property, among so many behind this one. -/
def seek : (turns i : Nat) → Option Nat
  | 0, _ => none
  | turns + 1, i => if p (after n i) then some (after n i) else seek turns (after n i)

/-- The cells with the property. -/
def hits : List Nat := (List.range n).filter p

variable {p n} {i j turns : Nat}

theorem nodup_hits : (hits p n).Nodup := List.nodup_range.filter p

theorem mem_hits : i ∈ hits p n ↔ i < n ∧ p i = true := by
  rw [hits, List.mem_filter, List.mem_range]

/-- Turns that do not come around go through the cells in order. -/
theorem seek_add (more : Nat) (h : i + turns < n) :
    seek p n (turns + more) i =
      ((List.range' (i + 1) turns).find? p).or (seek p n more (i + turns)) := by
  induction turns generalizing i with
  | zero =>
      rw [Nat.zero_add, List.range'_zero, List.find?_nil, Option.none_or]
      rfl
  | succ turns ih =>
      have hafter : after n i = i + 1 := if_neg (by omega)
      rw [Nat.add_right_comm, seek, hafter, List.range'_succ, List.find?_cons]
      by_cases hp : p (i + 1)
      · rw [if_pos hp, hp]
        rfl
      · rw [if_neg hp, ih (by omega), Bool.eq_false_iff.mpr hp, Nat.add_right_comm i 1 turns]
        rfl

/-- A whole round goes through the cells behind this one and then through those up to it. -/
theorem seek_round (hi : i < n) :
    seek p n n i = (List.range' (i + 1) (n - 1 - i) ++ List.range (i + 1)).find? p := by
  have hround : n = (n - 1 - i) + (i + 1) := by omega
  have hlast : i + (n - 1 - i) = n - 1 := by omega
  have hwrap : after n (n - 1) = 0 := if_pos (by omega)
  have hrest : seek p n i 0 = (List.range' 1 i).find? p := by
    have hadd := @seek_add p n 0 i 0 (by omega)
    rwa [seek, Option.or_none, Nat.add_zero, Nat.zero_add] at hadd
  have hturns : seek p n n i = seek p n ((n - 1 - i) + (i + 1)) i := congrArg (seek p n · i) hround
  rw [hturns, seek_add _ (by omega), hlast, seek, hwrap, hrest, List.find?_append, List.range_eq_range',
    List.range'_succ, List.find?_cons]
  by_cases hp : p 0
  · rw [if_pos hp, hp]
  · rw [if_neg hp, Bool.eq_false_iff.mpr hp]

theorem hits_split (hi : i < n) :
    hits p n = hits p (i + 1) ++ (List.range' (i + 1) (n - 1 - i)).filter p := by
  have hrange : List.range n = List.range (i + 1) ++ List.range' (i + 1) (n - 1 - i) := by
    have happend := @List.range'_append_1 0 (i + 1) (n - 1 - i)
    rw [Nat.zero_add, show i + 1 + (n - 1 - i) = n by omega] at happend
    rw [List.range_eq_range', List.range_eq_range', happend]
  rw [hits, hits, hrange, List.filter_append]

/-- What a search finds: the hits in a circle, from those behind the cell on. -/
theorem seek_eq (hi : i < n) :
    seek p n n i = ((hits p n).rotate (hits p (i + 1)).length).head? := by
  rw [seek_round hi, hits_split hi, List.rotate_append_length_eq, ← List.head?_filter, List.filter_append,
    hits]

/-- **The next hit.** From one hit the search goes to the one behind it. -/
theorem seek_hit (h : (hits p n)[j]? = some i) :
    seek p n n i = (hits p n)[(j + 1) % (hits p n).length]? := by
  obtain ⟨hj, hget⟩ := List.getElem?_eq_some_iff.mp h
  have hmem := List.mem_of_getElem? h
  obtain ⟨hi, hp⟩ := mem_hits.mp hmem
  have hupTo : hits p (i + 1) = hits p i ++ [i] := by
    rw [hits, List.range_succ, List.filter_append, List.filter_singleton, hp, cond_true, hits]
  have hplace : (hits p n)[(hits p i).length]? = some i := by
    rw [hits_split hi, hupTo, List.append_assoc, List.getElem?_append_right (Nat.le_refl _), Nat.sub_self]
    rfl
  have hsame : (hits p i).length = j := by
    obtain ⟨hlt, hget'⟩ := List.getElem?_eq_some_iff.mp hplace
    exact (nodup_hits.getElem_inj_iff).mp (hget'.trans hget.symm)
  rw [seek_eq hi, hupTo, List.length_append, hsame, List.length_singleton, ← List.rotate_mod]
  exact List.head?_rotate (Nat.mod_lt _ (by omega))

/-- **Termination.** Where there is a hit a round finds one, from every cell. -/
theorem exists_seek (hi : i < n) (hhits : hits p n ≠ []) :
    ∃ j, j < (hits p n).length ∧ seek p n n i = (hits p n)[j]? := by
  have hpos := List.length_pos_iff.mpr hhits
  refine ⟨(hits p (i + 1)).length % (hits p n).length, Nat.mod_lt _ hpos, ?_⟩
  rw [seek_eq hi, ← List.rotate_mod]
  exact List.head?_rotate (Nat.mod_lt _ hpos)

/-! ### The cells of a list -/

section Elements

variable {α : Type*} (q : α → Bool) (xs : List α)

/-- Whether the element of this cell has the property. -/
def holdsAt (i : Nat) : Bool := (xs[i]?.map q).getD false

/-- The elements at the hits are those with the property. -/
theorem map_hits : (hits (holdsAt q xs) xs.length).map (fun i => xs[i]?) = (xs.filter q).map some := by
  have hcells : (List.range xs.length).map (fun i => xs[i]?) = xs.map some := by
    apply List.ext_getElem
    · simp
    · intro i hi hi'
      simp
  calc
    _ = ((List.range xs.length).map fun i => xs[i]?).filter fun x => (x.map q).getD false := by
      rw [List.filter_map]
      rfl
    _ = (xs.filter q).map some := by
      rw [hcells, List.filter_map]
      rfl

theorem length_hits : (hits (holdsAt q xs) xs.length).length = (xs.filter q).length := by
  have hlength := congrArg List.length (map_hits q xs)
  rwa [List.length_map, List.length_map] at hlength

variable {q xs}

/-- The element at a hit is the one of the same rank. -/
theorem getElem?_of_hit (h : (hits (holdsAt q xs) xs.length)[j]? = some i) :
    xs[i]? = (xs.filter q)[j]? := by
  have hmap := congrArg (fun l => l[j]?) (map_hits q xs)
  rw [List.getElem?_map, List.getElem?_map, h, Option.map_some] at hmap
  cases hget : (xs.filter q)[j]? with
  | none =>
      rw [hget] at hmap
      cases hmap
  | some x =>
      rw [hget] at hmap
      exact Option.some.inj hmap

end Elements

/-! ### Going round a list -/

section Rounds

variable {α : Type*} {xs : List α}

/-- One round through a list, from any of its elements. -/
theorem map_range_mod (s : Nat) :
    (List.range xs.length).map (fun i => xs[(s + i) % xs.length]?) = (xs.rotate s).map some := by
  apply List.ext_getElem
  · simp
  · intro i hi hi'
    rw [List.length_map, List.length_range] at hi
    rw [List.getElem_map, List.getElem_map, List.getElem_range, List.getElem_rotate, Nat.add_comm s i]
    exact List.getElem?_eq_getElem _

end Rounds

end CyclicSearch
