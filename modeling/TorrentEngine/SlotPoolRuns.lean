import Mathlib.Algebra.Group.Nat.Defs
import Mathlib.Data.Fintype.Card
import TorrentEngine.Library.Transition
import TorrentEngine.SlotPool

/-! `slot_recycling_pool` in the hands of a caller who releases each acquired slot at most once: which
slots are held, and the generations seen at each acquisition. -/

open Transition

namespace TorrentEngine

variable {T : Type} {N : Nat}

namespace SlotPool

def active (pool : SlotPool T N) : Nat := N - pool.available

/-- `pool_slot::generation`, of a counter of 64 bits. -/
def observedGeneration (pool : SlotPool T N) (slot : Fin N) : Nat := pool.generation slot % 2 ^ 64

end SlotPool

/-- A pool, the slots acquired from it and not released, and the generation seen at each acquisition. -/
structure PoolRun (T : Type) (N : Nat) where
  pool : SlotPool T N
  held : Finset (Fin N)
  observed : List (Fin N × Nat)

inductive PoolEvent (N : Nat) where
  | acquire
  | release (slot : Fin N)

namespace PoolRun

def start (N : Nat) (object : T) : PoolRun T N := ⟨.initial N object, ∅, []⟩

/-- An acquisition may fail; only a slot that is held may be released. -/
def step (x : PoolRun T N) : PoolEvent N → Option (PoolRun T N)
  | .acquire =>
      match x.pool.acquire with
      | none => some x
      | some (slot, pool) =>
          some ⟨pool, insert slot x.held, x.observed ++ [(slot, pool.observedGeneration slot)]⟩
  | .release slot =>
      if slot ∈ x.held then some { x with pool := x.pool.release slot, held := x.held.erase slot } else none

/-- The generations seen at the acquisitions of a slot, the first one first. -/
def generations (x : PoolRun T N) (slot : Fin N) : List Nat :=
  (x.observed.filter (·.1 = slot)).map (·.2)

/-- How often a slot was acquired: each release counts up its generation, and a slot that is held was
acquired once more. -/
def acquisitions (x : PoolRun T N) (slot : Fin N) : Nat :=
  x.pool.generation slot + if slot ∈ x.held then 1 else 0

end PoolRun

def poolMachine (T : Type) (N : Nat) : Machine (PoolRun T N) (PoolEvent N) where
  Init x := ∃ object, x = .start N object
  Step x e x' := x.step e = some x'

namespace PoolRun

variable {x x' : PoolRun T N} {e : PoolEvent N}

/-- The free list, the occupancy bits, the counters and the caller agree. -/
structure Coherent (x : PoolRun T N) : Prop where
  wellFormed : x.pool.WellFormed
  held : ∀ slot, slot ∈ x.held ↔ x.pool.occupied slot = true
  generations : ∀ slot, x.generations slot = (List.range (x.acquisitions slot)).map (· % 2 ^ 64)

theorem start_coherent (object : T) : (start N object).Coherent where
  wellFormed := SlotPool.initial_wellFormed object
  held slot := by simp [start, SlotPool.initial]
  generations slot := by simp [start, PoolRun.generations, acquisitions, SlotPool.initial]

/-- The free slots are those that are not held. -/
theorem Coherent.mem_availableSlots (h : x.Coherent) (slot : Fin N) :
    slot ∈ x.pool.availableSlots ↔ slot ∉ x.held := by
  rw [h.wellFormed.mem_iff, h.held, Bool.not_eq_true]

theorem Coherent.available_add_card (h : x.Coherent) : x.pool.available + x.held.card = N := by
  have hcompl : x.pool.availableSlots.toFinset = x.heldᶜ := by
    ext slot
    rw [List.mem_toFinset, h.mem_availableSlots, Finset.mem_compl]
  calc x.pool.available + x.held.card
      = x.pool.availableSlots.toFinset.card + x.held.card := by
        rw [List.toFinset_card_of_nodup h.wellFormed.nodup, SlotPool.available]
    _ = x.heldᶜ.card + x.held.card := by rw [hcompl]
    _ = N := by rw [Finset.card_compl_add_card, Fintype.card_fin]

/-- An acquisition takes a slot that is not held. -/
theorem Coherent.acquire_fresh (h : x.Coherent) {slot : Fin N} {pool : SlotPool T N}
    (hacquire : x.pool.acquire = some (slot, pool)) : slot ∉ x.held := by
  obtain ⟨-, hfree, -⟩ := h.wellFormed.acquire hacquire
  rw [h.held, hfree]
  exact Bool.false_ne_true

theorem Coherent.acquire (h : x.Coherent) {slot : Fin N} {pool : SlotPool T N}
    (hacquire : x.pool.acquire = some (slot, pool)) :
    Coherent ⟨pool, insert slot x.held, x.observed ++ [(slot, pool.observedGeneration slot)]⟩ := by
  have hfresh := h.acquire_fresh hacquire
  obtain ⟨hwf, -, hpool⟩ := h.wellFormed.acquire hacquire
  have hgeneration : pool.generation = x.pool.generation := by rw [hpool]
  refine ⟨hwf, fun other => ?_, fun other => ?_⟩
  · dsimp only
    rw [hpool]
    dsimp only
    by_cases hother : other = slot
    · simp [hother]
    · rw [Function.update_of_ne hother, ← h.held, Finset.mem_insert]
      exact or_iff_right hother
  · have hold := h.generations other
    rw [PoolRun.generations, acquisitions] at hold ⊢
    dsimp only
    rw [List.filter_append, List.map_append, hold, hgeneration]
    by_cases hother : other = slot
    · subst hother
      rw [if_neg hfresh, if_pos (Finset.mem_insert_self other x.held), List.range_succ, List.map_append]
      simp [SlotPool.observedGeneration, hgeneration]
    · have hheld : other ∈ insert slot x.held ↔ other ∈ x.held := by
        rw [Finset.mem_insert]
        exact or_iff_right hother
      simp [hheld, Ne.symm hother]

theorem Coherent.release (h : x.Coherent) {slot : Fin N} (hslot : slot ∈ x.held) :
    Coherent { x with pool := x.pool.release slot, held := x.held.erase slot } := by
  have hoccupied := (h.held slot).mp hslot
  refine ⟨h.wellFormed.release hoccupied, fun other => ?_, fun other => ?_⟩
  · dsimp only [SlotPool.release]
    by_cases hother : other = slot
    · simp [hother]
    · rw [Function.update_of_ne hother, ← h.held, Finset.mem_erase]
      exact and_iff_right hother
  · have hold := h.generations other
    rw [PoolRun.generations, acquisitions] at hold ⊢
    dsimp only [SlotPool.release]
    rw [hold]
    by_cases hother : other = slot
    · subst hother
      rw [if_pos hslot, if_neg (Finset.notMem_erase other x.held), Function.update_self]
    · have hheld : other ∈ x.held.erase slot ↔ other ∈ x.held := by
        rw [Finset.mem_erase]
        exact and_iff_right hother
      rw [Function.update_of_ne hother]
      simp [hheld]

theorem Coherent.step (h : x.Coherent) (hstep : x.step e = some x') : x'.Coherent := by
  cases e with
  | acquire =>
      rw [PoolRun.step] at hstep
      split at hstep
      · cases hstep
        exact h
      · rename_i slot pool hacquire
        cases hstep
        exact h.acquire hacquire
  | release slot =>
      rw [PoolRun.step] at hstep
      split at hstep
      · rename_i hslot
        cases hstep
        exact h.release hslot
      · cases hstep

theorem coherent (h : (poolMachine T N).Reachable x) : x.Coherent := by
  refine h.invariant Coherent ?_ fun _ _ _ hx hstep => hx.step hstep
  rintro _ ⟨object, rfl⟩
  exact start_coherent object

/-- Counters of 64 bits that start at zero and count up: they increase until the first one that wraps. -/
theorem pairwise_range_mod (k : Nat) :
    ((List.range k).map (· % 2 ^ 64)).Pairwise (· < ·) ↔ k ≤ 2 ^ 64 := by
  constructor
  · intro h
    by_contra hgt
    have hpair := List.pairwise_iff_getElem.mp h 0 (2 ^ 64) (by simp; omega) (by simp; omega) (by decide)
    simp only [List.getElem_map, List.getElem_range, Nat.zero_mod, Nat.mod_self] at hpair
    exact Nat.lt_irrefl 0 hpair
  · intro hle
    have hmap : (List.range k).map (· % 2 ^ 64) = List.range k := by
      conv_rhs => rw [← List.map_id (List.range k)]
      apply List.map_congr_left
      intro i hi
      exact Nat.mod_eq_of_lt (lt_of_lt_of_le (List.mem_range.mp hi) hle)
    rw [hmap]
    exact List.pairwise_lt_range

/-- **A slot is never granted twice.** Whatever is acquired and released, an acquisition succeeds exactly
while a slot is left and takes one that is not held; the free list has each slot once that is not occupied;
the counts add up; and the generations seen at the acquisitions of a slot are 0, 1, 2 and so on in 64 bits,
so that they increase as long as the slot has been acquired at most 2^64 times. -/
theorem pool_run (h : (poolMachine T N).Reachable x) :
    (x.pool.acquire ≠ none ↔ x.held.card < N) ∧
      (∀ slot pool, x.pool.acquire = some (slot, pool) → slot ∉ x.held) ∧
      x.pool.availableSlots.Nodup ∧
      (∀ slot, slot ∈ x.pool.availableSlots ↔ x.pool.occupied slot = false) ∧
      x.pool.available + x.pool.active = N ∧ x.pool.active = x.held.card ∧
      ∀ slot, (∀ i, ∀ hi : i < (x.generations slot).length, (x.generations slot)[i] = i % 2 ^ 64) ∧
        ((x.generations slot).Pairwise (· < ·) ↔ (x.generations slot).length ≤ 2 ^ 64) := by
  have hx := coherent h
  have hcard := hx.available_add_card
  have hactive : x.pool.active = x.held.card := by
    rw [SlotPool.active]
    omega
  refine ⟨?_, fun slot pool => hx.acquire_fresh, hx.wellFormed.nodup, hx.wellFormed.mem_iff, ?_, hactive,
    fun slot => ⟨?_, ?_⟩⟩
  · constructor
    · intro hacquire
      by_contra hfull
      have hempty : x.pool.availableSlots = [] := by
        apply List.eq_nil_of_length_eq_zero
        have havailable : x.pool.availableSlots.length = x.pool.available := rfl
        omega
      apply hacquire
      rw [SlotPool.acquire, hempty]
    · intro hroom
      apply SlotPool.acquire_ne_none
      omega
  · rw [hactive]
    exact hcard
  · intro i hi
    simp only [hx.generations slot, List.getElem_map, List.getElem_range]
  · rw [hx.generations slot, List.length_map, List.length_range]
    exact pairwise_range_mod _

/-- A slot is acquired and released, so many times. -/
def cycles (k : Nat) : List (PoolEvent 1) := (List.replicate k [.acquire, .release 0]).flatten

theorem cycles_succ (k : Nat) : cycles (k + 1) = cycles k ++ [.acquire] ++ [.release 0] := by
  rw [cycles, List.replicate_succ', List.flatten_append, cycles, List.append_assoc]
  rfl

/-- The only slot of a pool after so many acquisitions and releases. -/
theorem run_cycles (k : Nat) : ∃ x : PoolRun Unit 1, (poolMachine Unit 1).Run (start 1 ()) (cycles k) x ∧
    x.held = ∅ ∧ x.pool.generation 0 = k := by
  induction k with
  | zero => exact ⟨start 1 (), .refl _, rfl, rfl⟩
  | succ k ih =>
      obtain ⟨x, hrun, hheld, hgeneration⟩ := ih
      have hx : x.Coherent := coherent (hrun.reachable (.init ⟨(), rfl⟩))
      have hcard := hx.available_add_card
      rw [hheld, Finset.card_empty] at hcard
      obtain ⟨⟨slot, pool⟩, hacquire⟩ :=
        Option.ne_none_iff_exists'.mp (SlotPool.acquire_ne_none (by omega : x.pool.available ≠ 0))
      obtain rfl : slot = 0 := Subsingleton.elim slot 0
      obtain ⟨-, -, hpool⟩ := hx.wellFormed.acquire hacquire
      let acquired : PoolRun Unit 1 :=
        ⟨pool, insert 0 x.held, x.observed ++ [(0, pool.observedGeneration 0)]⟩
      have hfirst : (poolMachine Unit 1).Step x .acquire acquired := by
        change x.step .acquire = some acquired
        rw [step, hacquire]
      have hmem : 0 ∈ acquired.held := Finset.mem_insert_self 0 x.held
      have hsecond : (poolMachine Unit 1).Step acquired (.release 0)
          { acquired with pool := pool.release 0, held := acquired.held.erase 0 } := if_pos hmem
      refine ⟨_, cycles_succ k ▸ (hrun.snoc hfirst).snoc hsecond, ?_, ?_⟩
      · change (insert 0 x.held).erase 0 = ∅
        rw [hheld]
        rfl
      · change (pool.release 0).generation 0 = k + 1
        rw [hpool]
        dsimp only [SlotPool.release]
        rw [Function.update_self, hgeneration]

theorem pool_run_cycles : ∃ x : PoolRun Unit 1,
    (poolMachine Unit 1).Run (start 1 ()) (cycles 3) x ∧ x.pool.available + x.pool.active = 1 := by
  obtain ⟨x, hrun, -⟩ := run_cycles 3
  exact ⟨x, hrun, (pool_run (hrun.reachable (.init ⟨(), rfl⟩))).2.2.2.2.1⟩

/-- **The generation wraps**, at the acquisition after 2^64 releases of a slot. -/
theorem generations_wrap : ∃ x : PoolRun Unit 1,
    (poolMachine Unit 1).Run (start 1 ()) (cycles (2 ^ 64 + 1)) x ∧
      ¬ (x.generations 0).Pairwise (· < ·) := by
  obtain ⟨x, hrun, hheld, hgeneration⟩ := run_cycles (2 ^ 64 + 1)
  have hx : x.Coherent := coherent (hrun.reachable (.init ⟨(), rfl⟩))
  have hcount : x.acquisitions 0 = 2 ^ 64 + 1 := by
    rw [acquisitions, hheld, if_neg (Finset.notMem_empty 0), hgeneration]
  refine ⟨x, hrun, ?_⟩
  rw [hx.generations 0, hcount, pairwise_range_mod]
  omega

end PoolRun
end TorrentEngine
