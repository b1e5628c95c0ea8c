import Mathlib.Data.List.FinRange
import Mathlib.Logic.Function.Basic

/-! `slot_recycling_pool<T, N>`: `N` objects that live as long as the pool, handed out and taken back
as slots. A release counts up the slot's generation. -/

namespace TorrentEngine

variable {T : Type*} {N : Nat}

/-- The pool. `available_slots` is written with its back first, where `acquire` and `release` work. -/
structure SlotPool (T : Type*) (N : Nat) where
  object : Fin N → T
  generation : Fin N → Nat
  availableSlots : List (Fin N)
  occupied : Fin N → Bool

namespace SlotPool

/-- A constructed pool: every object default-constructed, every slot available. -/
def initial (N : Nat) (object : T) : SlotPool T N :=
  ⟨fun _ => object, fun _ => 0, (List.finRange N).reverse, fun _ => false⟩

def available (pool : SlotPool T N) : Nat := pool.availableSlots.length

/-- The acquired slot, or none when no slot is available. -/
def acquire (pool : SlotPool T N) : Option (Fin N × SlotPool T N) :=
  match pool.availableSlots with
  | [] => none
  | slot :: rest =>
      some (slot,
        { pool with availableSlots := rest, occupied := Function.update pool.occupied slot true })

def release (pool : SlotPool T N) (slot : Fin N) : SlotPool T N :=
  { pool with
    generation := Function.update pool.generation slot (pool.generation slot + 1)
    availableSlots := slot :: pool.availableSlots
    occupied := Function.update pool.occupied slot false }

/-- A write through the pointer to a slot's object. -/
def setObject (pool : SlotPool T N) (slot : Fin N) (object : T) : SlotPool T N :=
  { pool with object := Function.update pool.object slot object }

/-- The available slots are the slots that are not occupied, each listed once. -/
structure WellFormed (pool : SlotPool T N) : Prop where
  nodup : pool.availableSlots.Nodup
  mem_iff : ∀ slot, slot ∈ pool.availableSlots ↔ pool.occupied slot = false

theorem initial_wellFormed (object : T) : (initial N object).WellFormed where
  nodup := List.nodup_reverse.mpr (List.nodup_finRange N)
  mem_iff slot := by
    simp [initial]

namespace WellFormed

variable {pool : SlotPool T N}

/-- The objects and generations do not matter. -/
theorem congr {pool' : SlotPool T N} (h : pool.WellFormed)
    (havailable : pool'.availableSlots = pool.availableSlots) (hoccupied : pool'.occupied = pool.occupied) :
    pool'.WellFormed := by
  refine ⟨?_, ?_⟩
  · rw [havailable]
    exact h.nodup
  · rw [havailable, hoccupied]
    exact h.mem_iff

/-- An acquired slot was free, and is the only one that changes. -/
theorem acquire (h : pool.WellFormed) {slot : Fin N} {pool' : SlotPool T N}
    (hacquire : pool.acquire = some (slot, pool')) :
    pool'.WellFormed ∧ pool.occupied slot = false ∧
      pool' = { pool with
        availableSlots := pool'.availableSlots
        occupied := Function.update pool.occupied slot true } := by
  obtain ⟨hnodup, hmem⟩ := h
  unfold SlotPool.acquire at hacquire
  split at hacquire
  · cases hacquire
  · rename_i first rest hslots
    cases hacquire
    rw [hslots] at hnodup hmem
    obtain ⟨hfirst, hrest⟩ := List.nodup_cons.mp hnodup
    have hfree : pool.occupied slot = false := (hmem slot).mp List.mem_cons_self
    refine ⟨⟨hrest, fun other => ?_⟩, hfree, rfl⟩
    by_cases hother : other = slot
    · subst hother
      simp [hfirst]
    · simp only [Function.update_of_ne hother]
      rw [← hmem, List.mem_cons]
      simp [hother]

theorem release (h : pool.WellFormed) {slot : Fin N} (hslot : pool.occupied slot = true) :
    (pool.release slot).WellFormed := by
  have hfresh : slot ∉ pool.availableSlots := by
    rw [h.mem_iff, hslot]
    exact Bool.noConfusion
  refine ⟨List.nodup_cons.mpr ⟨hfresh, h.nodup⟩, fun other => ?_⟩
  simp only [SlotPool.release, List.mem_cons]
  by_cases hother : other = slot
  · subst hother
    simp
  · rw [Function.update_of_ne hother, ← h.mem_iff]
    simp [hother]

end WellFormed

theorem acquire_ne_none {pool : SlotPool T N} (h : pool.available ≠ 0) : pool.acquire ≠ none := by
  unfold acquire
  split
  · rename_i hslots
    exact absurd (congrArg List.length hslots) h
  · exact Option.some_ne_none _

end SlotPool

end TorrentEngine
