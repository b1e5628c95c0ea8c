import Mathlib.Algebra.GroupWithZero.Nat
import Mathlib.Data.List.Basic

/-! A row of consecutive blocks of given sizes, read cell by cell or in chunks of one length, and the
binary search for the block a position falls in. -/

namespace Tiling

/-! ### Binary search -/

section LowerBound

variable {α : Type*}

def lowerBoundFrom (below : α → Bool) (xs : List α) : Nat → Nat → Nat → Nat
  | 0, first, _ => first
  | turns + 1, first, len =>
      if len = 0 then first
      else match xs[first + len / 2]? with
        | none => first
        | some x =>
            if below x then lowerBoundFrom below xs turns (first + len / 2 + 1) (len - len / 2 - 1)
            else lowerBoundFrom below xs turns first (len / 2)

/-- The index of the first element that is not below, found by halving what is left to search. -/
def lowerBound (below : α → Bool) (xs : List α) : Nat :=
  lowerBoundFrom below xs xs.length 0 xs.length

/-- Where the elements below end, they are the elements before. -/
theorem below_iff_lt {below : α → Bool} {xs : List α} {first : Nat}
    (hbefore : ∀ (i : Nat) x, xs[i]? = some x → i < first → below x = true)
    (hafter : ∀ (i : Nat) x, xs[i]? = some x → first ≤ i → below x = false) {i : Nat} {x : α}
    (hx : xs[i]? = some x) : below x = true ↔ i < first := by
  refine ⟨fun hbelow => ?_, hbefore i x hx⟩
  by_contra hle
  rw [hafter i x hx (Nat.le_of_not_lt hle)] at hbelow
  cases hbelow

theorem lowerBoundFrom_spec {below : α → Bool} {xs : List α}
    (hparted : xs.Pairwise fun a b => below b = true → below a = true) {turns first len : Nat}
    (hturns : len ≤ turns) (hlen : first + len ≤ xs.length)
    (hbefore : ∀ (i : Nat) x, xs[i]? = some x → i < first → below x = true)
    (hafter : ∀ (i : Nat) x, xs[i]? = some x → first + len ≤ i → below x = false)
    {i : Nat} {x : α} (hx : xs[i]? = some x) :
    below x = true ↔ i < lowerBoundFrom below xs turns first len := by
  have hmono : ∀ (j k : Nat) y z, xs[j]? = some y → xs[k]? = some z → j < k →
      below z = true → below y = true := by
    intro j k y z hy hz hjk
    obtain ⟨hj, rfl⟩ := List.getElem?_eq_some_iff.mp hy
    obtain ⟨hk, rfl⟩ := List.getElem?_eq_some_iff.mp hz
    exact List.pairwise_iff_getElem.mp hparted j k hj hk hjk
  induction turns generalizing first len with
  | zero =>
      obtain rfl : len = 0 := by omega
      exact below_iff_lt hbefore hafter hx
  | succ turns ih =>
      rw [lowerBoundFrom]
      split
      · rename_i hzero
        subst hzero
        exact below_iff_lt hbefore hafter hx
      · rename_i hne
        have hmid : first + len / 2 < xs.length := by omega
        have hmiddle : xs[first + len / 2]? = some xs[first + len / 2] :=
          List.getElem?_eq_getElem hmid
        rw [hmiddle]
        dsimp only
        split
        · rename_i hbelow
          refine ih (by omega) (by omega) ?_ fun j y hy hj => hafter j y hy (by omega)
          intro j y hy hj
          rcases Nat.lt_succ_iff_lt_or_eq.mp hj with hlt | rfl
          · exact hmono j _ y _ hy hmiddle hlt hbelow
          · rwa [Option.some.inj (hy.symm.trans hmiddle)]
        · rename_i hnot
          refine ih (by omega) (by omega) hbefore ?_
          intro j y hy hj
          rw [Bool.not_eq_true] at hnot
          rcases Nat.lt_or_eq_of_le hj with hlt | rfl
          · by_contra hb
            rw [Bool.not_eq_false] at hb
            rw [hmono _ j _ y hmiddle hy hlt hb] at hnot
            cases hnot
          · rwa [Option.some.inj (hy.symm.trans hmiddle)]

/-- In a list whose elements below come first, the search separates them from the others. -/
theorem lowerBound_spec {below : α → Bool} {xs : List α}
    (hparted : xs.Pairwise fun a b => below b = true → below a = true) {i : Nat} {x : α}
    (hx : xs[i]? = some x) : below x = true ↔ i < lowerBound below xs := by
  refine lowerBoundFrom_spec hparted (Nat.le_refl _) (by omega) (fun _ _ _ h => absurd h (Nat.not_lt_zero _))
    (fun j y hy hj => ?_) hx
  obtain ⟨hlt, -⟩ := List.getElem?_eq_some_iff.mp hy
  omega

theorem lowerBoundFrom_le (below : α → Bool) (xs : List α) (turns first len : Nat) :
    lowerBoundFrom below xs turns first len ≤ first + len := by
  induction turns generalizing first len with
  | zero => exact Nat.le_add_right _ _
  | succ turns ih =>
      rw [lowerBoundFrom]
      split
      · exact Nat.le_add_right _ _
      · split
        · exact Nat.le_add_right _ _
        · split
          · exact Nat.le_trans (ih _ _) (by omega)
          · exact Nat.le_trans (ih _ _) (by omega)

theorem lowerBound_le_length (below : α → Bool) (xs : List α) :
    lowerBound below xs ≤ xs.length := by
  have := lowerBoundFrom_le below xs xs.length 0 xs.length
  rwa [Nat.zero_add] at this

end LowerBound

/-! ### Cells -/

/-- The cells of a part of a block: `size` of them, from `offset` on. -/
def fragment (block offset size : Nat) : List (Nat × Nat) :=
  (List.range' offset size).map fun i => (block, i)

/-- The cells of consecutive blocks of these sizes, the first of them numbered `block`. -/
def cellsFrom (block : Nat) : List Nat → List (Nat × Nat)
  | [] => []
  | size :: sizes => fragment block 0 size ++ cellsFrom (block + 1) sizes

@[simp] theorem length_fragment (block offset size : Nat) :
    (fragment block offset size).length = size := by
  rw [fragment, List.length_map, List.length_range']

theorem fragment_zero (block offset : Nat) : fragment block offset 0 = [] := rfl

theorem drop_fragment (n block offset size : Nat) :
    (fragment block offset size).drop n = fragment block (offset + n) (size - n) := by
  rw [fragment, ← List.map_drop, List.drop_range', Nat.mul_one]
  rfl

theorem take_fragment (n block offset size : Nat) :
    (fragment block offset size).take n = fragment block offset (min n size) := by
  rw [fragment, fragment, ← List.map_take]
  rcases Nat.le_total n size with hle | hle
  · rw [List.take_range'_of_length_ge hle, Nat.min_eq_left hle]
  · rw [List.take_range'_of_length_le hle, Nat.min_eq_right hle]

theorem fst_of_mem_fragment {block offset size : Nat} {cell : Nat × Nat}
    (h : cell ∈ fragment block offset size) : cell.1 = block := by
  obtain ⟨i, -, rfl⟩ := List.mem_map.mp h
  rfl

theorem fragment_append (block offset m n : Nat) :
    fragment block offset m ++ fragment block (offset + m) n = fragment block offset (m + n) := by
  have hrange := @List.range'_append offset m n 1
  rw [Nat.one_mul] at hrange
  rw [fragment, fragment, fragment, ← List.map_append, hrange]

theorem length_cellsFrom (block : Nat) (sizes : List Nat) :
    (cellsFrom block sizes).length = sizes.sum := by
  induction sizes generalizing block with
  | nil => rfl
  | cons size sizes ih => rw [cellsFrom, List.length_append, length_fragment, ih, List.sum_cons]

theorem drop_cellsFrom (block n : Nat) (sizes : List Nat) :
    (cellsFrom block sizes).drop (sizes.take n).sum = cellsFrom (block + n) (sizes.drop n) := by
  induction sizes generalizing block n with
  | nil => simp [cellsFrom]
  | cons size sizes ih =>
      cases n with
      | zero => rfl
      | succ n =>
          have hdrop := @List.drop_length_add_append _ (fragment block 0 size)
            (cellsFrom (block + 1) sizes) (sizes.take n).sum
          rw [length_fragment] at hdrop
          rw [List.take_succ_cons, List.sum_cons, List.drop_succ_cons, cellsFrom, hdrop, ih,
            Nat.add_assoc, Nat.add_comm 1 n]

/-- The cell a position of the row falls in: the blocks before it fill the row up to its offset. -/
theorem getElem?_cellsFrom {block n : Nat} {sizes : List Nat} {cell : Nat × Nat}
    (h : (cellsFrom block sizes)[n]? = some cell) :
    ∃ i size, cell.1 = block + i ∧ sizes[i]? = some size ∧ cell.2 < size ∧
      (sizes.take i).sum + cell.2 = n := by
  induction sizes generalizing block n with
  | nil => cases h
  | cons size sizes ih =>
      rw [cellsFrom] at h
      rcases Nat.lt_or_ge n size with hlt | hge
      · rw [List.getElem?_append_left (by rwa [length_fragment]), fragment, List.getElem?_map,
          List.getElem?_range' hlt, Option.map_some, Option.some.injEq] at h
        subst h
        exact ⟨0, size, rfl, rfl, by omega, by simp⟩
      · rw [List.getElem?_append_right (by rwa [length_fragment]), length_fragment] at h
        obtain ⟨i, size', hblock, hsize, hlt, hsum⟩ := ih h
        refine ⟨i + 1, size', by omega, hsize, hlt, ?_⟩
        rw [List.take_succ_cons, List.sum_cons]
        omega

/-- Chunks of one length, taken one after the other, make up the whole. -/
theorem flatMap_chunks {α : Type*} (xs : List α) (length n : Nat) :
    ((List.range n).flatMap fun i => (xs.drop (i * length)).take length) = xs.take (n * length) := by
  induction n with
  | zero => simp
  | succ n ih =>
      rw [List.range_succ, List.flatMap_append, ih, List.flatMap_singleton, Nat.succ_mul,
        List.take_add]

section Chunks

variable {α : Type*} {xs ys : List α} {length i : Nat}

/-- What is appended within a chunk is appended to that chunk. -/
theorem chunk_append (hstart : i * length ≤ xs.length)
    (hend : xs.length + ys.length ≤ (i + 1) * length) :
    ((xs ++ ys).drop (i * length)).take length = (xs.drop (i * length)).take length ++ ys := by
  rw [Nat.succ_mul] at hend
  rw [List.drop_append_of_le_length hstart, List.take_append,
    List.take_of_length_le (by rw [List.length_drop]; omega), List.length_drop,
    List.take_of_length_le (by omega)]

theorem chunk_append_of_le (hend : (i + 1) * length ≤ xs.length) :
    ((xs ++ ys).drop (i * length)).take length = (xs.drop (i * length)).take length := by
  rw [Nat.succ_mul] at hend
  rw [List.drop_append_of_le_length (by omega),
    List.take_append_of_le_length (by rw [List.length_drop]; omega)]

theorem chunk_of_le (hpast : xs.length ≤ i * length) :
    (xs.drop (i * length)).take length = [] := by
  rw [List.drop_of_length_le hpast, List.take_nil]

end Chunks

end Tiling
