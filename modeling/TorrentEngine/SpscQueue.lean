import TorrentEngine.Library.BoundedFifo
import TorrentEngine.Library.CyclicCells
import Mathlib.Logic.Function.Basic

/-! `spsc_queue<Type, Size>` under one pushing and one popping thread. Every atomic load or store and
every slot copy is a step of its own, so the threads interleave between any two of them. The indices
are counted without wrapping in the proofs: the value pushed as number `i` lies in slot
`i % (Size + 1)`, and the two cached indices are earlier counts of the two threads. -/

open Transition

namespace TorrentEngine.SpscQueue

variable {T : Type*} {Size : Nat}

/-- Where the thread inside `push` stands. -/
inductive Producer (T : Type*) where
  | idle
  | reload (val : T) (writeIndex nextWriteIndex : Nat)
  | copy (val : T) (writeIndex nextWriteIndex : Nat)
  | publish (val : T) (nextWriteIndex : Nat)

/-- Where the thread inside `pop` stands. -/
inductive Consumer (T : Type*) where
  | idle
  | reload (readIndex : Nat)
  | copy (readIndex : Nat)
  | release (val : T) (nextReadIndex : Nat)

/-- The queue, its two threads, and the values whose `push` or `pop` has returned true, in order. -/
structure State (T : Type*) (Size : Nat) where
  queue : Nat → T
  readIdx : Nat
  cachedReadIdx : Nat
  writeIdx : Nat
  cachedWriteIdx : Nat
  producer : Producer T
  consumer : Consumer T
  pushed : List T
  popped : List T

def initial (Size : Nat) (storage : Nat → T) : State T Size :=
  ⟨storage, 0, 0, 0, 0, .idle, .idle, [], []⟩

/-- `queue.size()`: one slot more than the values it may hold. -/
def queueSize (Size : Nat) : Nat := Size + 1

def nextIndex (Size index : Nat) : Nat := if index + 1 = queueSize Size then 0 else index + 1

/-- One step inside `push`: the state after it, and the result when the call returns with it. The
argument is taken when a new call starts. -/
def pushStep (s : State T Size) (arg : T) : State T Size × Option Bool :=
  match s.producer with
  | .idle =>
      let writeIndex := s.writeIdx
      let nextWriteIndex := nextIndex Size writeIndex
      if nextWriteIndex = s.cachedReadIdx then
        ({ s with producer := .reload arg writeIndex nextWriteIndex }, none)
      else ({ s with producer := .copy arg writeIndex nextWriteIndex }, none)
  | .reload val writeIndex nextWriteIndex =>
      if nextWriteIndex = s.readIdx then
        ({ s with cachedReadIdx := s.readIdx, producer := .idle }, some false)
      else
        ({ s with cachedReadIdx := s.readIdx, producer := .copy val writeIndex nextWriteIndex }, none)
  | .copy val writeIndex nextWriteIndex =>
      ({ s with queue := Function.update s.queue writeIndex val,
                producer := .publish val nextWriteIndex }, none)
  | .publish val nextWriteIndex =>
      ({ s with writeIdx := nextWriteIndex, producer := .idle, pushed := s.pushed ++ [val] },
        some true)

/-- One step inside `pop`: the state after it, and the result when the call returns with it. The
value moved out of a slot leaves `residue` behind. -/
def popStep (s : State T Size) (residue : T) : State T Size × Option (Option T) :=
  match s.consumer with
  | .idle =>
      let readIndex := s.readIdx
      if readIndex = s.cachedWriteIdx then ({ s with consumer := .reload readIndex }, none)
      else ({ s with consumer := .copy readIndex }, none)
  | .reload readIndex =>
      if readIndex = s.writeIdx then
        ({ s with cachedWriteIdx := s.writeIdx, consumer := .idle }, some none)
      else ({ s with cachedWriteIdx := s.writeIdx, consumer := .copy readIndex }, none)
  | .copy readIndex =>
      ({ s with queue := Function.update s.queue readIndex residue,
                consumer := .release (s.queue readIndex) (nextIndex Size readIndex) }, none)
  | .release val nextReadIndex =>
      ({ s with readIdx := nextReadIndex, consumer := .idle, popped := s.popped ++ [val] },
        some (some val))

inductive Event (T : Type*) where
  | push (arg : T)
  | pop (residue : T)

def machine (T : Type*) (Size : Nat) : Machine (State T Size) (Event T) where
  Init s := ∃ storage, s = initial Size storage
  Step s e s' := match e with
    | .push arg => s' = (pushStep s arg).1
    | .pop residue => s' = (popStep s residue).1

/-! ### The counts behind the indices -/

theorem nextIndex_mod (Size count : Nat) :
    nextIndex Size (count % queueSize Size) = (count + 1) % queueSize Size := by
  have hlt : count % queueSize Size < queueSize Size := Nat.mod_lt _ (Nat.succ_pos Size)
  rw [nextIndex, ← Nat.mod_add_mod]
  split
  · rename_i hlast
    rw [hlast, Nat.mod_self]
  · exact (Nat.mod_eq_of_lt (by omega)).symm

/-- Counts less than a turn apart that share a slot are equal. -/
theorem eq_of_mod_eq {Size i j : Nat} (hle : i ≤ j) (hlt : j < i + queueSize Size)
    (h : i % queueSize Size = j % queueSize Size) : i = j := by
  obtain ⟨d, rfl⟩ := Nat.exists_eq_add_of_le hle
  have hd : d < queueSize Size := by omega
  have hzero : 0 = d := CyclicCells.add_mod_injective (Nat.succ_pos Size) hd
    (show (i + 0) % queueSize Size = (i + d) % queueSize Size from h)
  omega

/-- How many values have been copied out of their slots: the popped ones, and the one in the hands of
a `pop` that has not stored its index yet. -/
def readCount (s : State T Size) : Nat :=
  match s.consumer with
  | .release _ _ => s.popped.length + 1
  | _ => s.popped.length

/-- What ties the indices, the slots and the two threads to the values pushed and popped. `behind` and
`ahead` count the values popped when the producer, and pushed when the consumer, last looked. -/
structure Coherent (s : State T Size) (behind ahead : Nat) : Prop where
  popped_prefix : s.popped <+: s.pushed
  behind_le : behind ≤ s.popped.length
  le_ahead : readCount s ≤ ahead
  ahead_le : ahead ≤ s.pushed.length
  room : s.pushed.length ≤ behind + Size
  readIdx_eq : s.readIdx = s.popped.length % queueSize Size
  writeIdx_eq : s.writeIdx = s.pushed.length % queueSize Size
  cachedReadIdx_eq : s.cachedReadIdx = behind % queueSize Size
  cachedWriteIdx_eq : s.cachedWriteIdx = ahead % queueSize Size
  slots : ∀ i, readCount s ≤ i → i < s.pushed.length →
    s.pushed[i]? = some (s.queue (i % queueSize Size))
  producer_at : match s.producer with
    | .idle => True
    | .reload _ writeIndex nextWriteIndex =>
        writeIndex = s.writeIdx ∧ nextWriteIndex = nextIndex Size s.writeIdx
    | .copy _ writeIndex nextWriteIndex =>
        writeIndex = s.writeIdx ∧ nextWriteIndex = nextIndex Size s.writeIdx ∧
          s.pushed.length < behind + Size
    | .publish val nextWriteIndex =>
        nextWriteIndex = nextIndex Size s.writeIdx ∧ s.pushed.length < behind + Size ∧
          s.queue s.writeIdx = val
  consumer_at : match s.consumer with
    | .idle => True
    | .reload readIndex => readIndex = s.readIdx
    | .copy readIndex => readIndex = s.readIdx ∧ s.popped.length < ahead
    | .release val nextReadIndex => nextReadIndex = nextIndex Size s.readIdx ∧
        s.pushed[s.popped.length]? = some val

theorem popped_le_readCount (s : State T Size) : s.popped.length ≤ readCount s := by
  unfold readCount
  split <;> omega

theorem initial_coherent (storage : Nat → T) : Coherent (initial Size storage) 0 0 where
  popped_prefix := List.prefix_refl []
  behind_le := Nat.le_refl 0
  le_ahead := Nat.le_refl 0
  ahead_le := Nat.le_refl 0
  room := Nat.zero_le _
  readIdx_eq := (Nat.zero_mod _).symm
  writeIdx_eq := (Nat.zero_mod _).symm
  cachedReadIdx_eq := (Nat.zero_mod _).symm
  cachedWriteIdx_eq := (Nat.zero_mod _).symm
  slots i _ hi := absurd hi (Nat.not_lt_zero i)
  producer_at := trivial
  consumer_at := trivial

namespace Coherent

variable {s : State T Size} {behind ahead : Nat}

/-- The next write index runs into an earlier read count only when that count is a full queue back. -/
theorem nextIndex_eq_iff (h : Coherent s behind ahead) {count : Nat} (hle : count ≤ s.pushed.length)
    (hroom : s.pushed.length ≤ count + Size) :
    nextIndex Size s.writeIdx = count % queueSize Size ↔ s.pushed.length = count + Size := by
  rw [h.writeIdx_eq, nextIndex_mod]
  constructor
  · intro heq
    by_contra hne
    have := eq_of_mod_eq (by omega) (by rw [queueSize]; omega) heq.symm
    omega
  · intro heq
    rw [heq, Nat.add_assoc]
    exact Nat.add_mod_right _ _

/-- The slot about to be written holds no value that is still to be read. -/
theorem write_slot_free (h : Coherent s behind ahead) (hroom : s.pushed.length < behind + Size)
    {i : Nat} (hread : readCount s ≤ i) (hi : i < s.pushed.length) :
    s.writeIdx ≠ i % queueSize Size := by
  intro heq
  have hbehind := h.behind_le
  have hpopped := popped_le_readCount s
  rw [h.writeIdx_eq] at heq
  have := eq_of_mod_eq (Nat.le_of_lt hi) (by rw [queueSize]; omega) heq.symm
  omega

/-- **A step of the producer.** -/
theorem push_step (h : Coherent s behind ahead) (arg : T) :
    ∃ behind', Coherent (pushStep s arg).1 behind' ahead := by
  have hpop := h.popped_prefix.length_le
  have hat := h.producer_at
  have hbehind := h.behind_le
  have hroom := h.room
  unfold pushStep
  cases hp : s.producer with
  | idle =>
      simp only
      split
      · exact ⟨behind, { h with producer_at := ⟨rfl, rfl⟩ }⟩
      · rename_i hne
        rw [h.cachedReadIdx_eq, h.nextIndex_eq_iff (by omega) hroom] at hne
        exact ⟨behind, { h with producer_at := ⟨rfl, rfl, by simp only; omega⟩ }⟩
  | reload val writeIndex nextWriteIndex =>
      rw [hp] at hat
      obtain ⟨hw, hnext⟩ := hat
      simp only
      split
      · exact ⟨s.popped.length, { h with
          behind_le := le_refl _
          room := by simp only; omega
          cachedReadIdx_eq := h.readIdx_eq
          producer_at := trivial }⟩
      · rename_i hne
        rw [hnext, h.readIdx_eq, h.nextIndex_eq_iff hpop (by omega)] at hne
        exact ⟨s.popped.length, { h with
          behind_le := le_refl _
          room := by simp only; omega
          cachedReadIdx_eq := h.readIdx_eq
          producer_at := ⟨hw, hnext, by simp only; omega⟩ }⟩
  | copy val writeIndex nextWriteIndex =>
      rw [hp] at hat
      obtain ⟨rfl, hnext, hlt⟩ := hat
      refine ⟨behind, { h with
        slots := ?_
        producer_at := ⟨hnext, hlt, Function.update_self _ _ _⟩ }⟩
      intro i hread hi
      have hfree := h.write_slot_free hlt hread hi
      simp only
      rw [Function.update_of_ne hfree.symm]
      exact h.slots i hread hi
  | publish val nextWriteIndex =>
      rw [hp] at hat
      obtain ⟨hnext, hlt, hval⟩ := hat
      refine ⟨behind, { h with
        popped_prefix := h.popped_prefix.trans (List.prefix_append _ _)
        ahead_le := ?_
        room := ?_
        writeIdx_eq := ?_
        slots := ?_
        producer_at := trivial
        consumer_at := ?_ }⟩
      · simp only [List.length_append, List.length_singleton]
        exact Nat.le_succ_of_le h.ahead_le
      · simp only [List.length_append, List.length_singleton]
        omega
      · simp only [List.length_append, List.length_singleton]
        rw [hnext, h.writeIdx_eq, nextIndex_mod]
      · intro i hread hi
        simp only [List.length_append, List.length_singleton] at hi
        simp only
        rcases Nat.lt_succ_iff_lt_or_eq.mp hi with hold | rfl
        · rw [List.getElem?_append_left hold]
          exact h.slots i hread hold
        · rw [List.getElem?_append_right (le_refl _), Nat.sub_self, ← h.writeIdx_eq, hval]
          rfl
      · have hcat := h.consumer_at
        simp only
        cases hc : s.consumer with
        | release v nextReadIndex =>
            rw [hc] at hcat
            obtain ⟨hr, hv⟩ := hcat
            exact ⟨hr, (List.getElem?_append_left (List.getElem?_eq_some_iff.mp hv).1).trans hv⟩
        | _ =>
            rw [hc] at hcat
            exact hcat

/-- The read index meets a write count exactly when everything before that count has been read. -/
theorem readIdx_eq_iff (h : Coherent s behind ahead) {count : Nat} (hle : s.popped.length ≤ count)
    (hcount : count ≤ s.pushed.length) :
    s.readIdx = count % queueSize Size ↔ s.popped.length = count := by
  have hbehind := h.behind_le
  have hroom := h.room
  rw [h.readIdx_eq]
  constructor
  · intro heq
    exact eq_of_mod_eq hle (by rw [queueSize]; omega) heq
  · intro heq
    rw [heq]

/-- The slot of the first value to be read holds none of the later ones. -/
theorem read_slot_alone (h : Coherent s behind ahead) {i : Nat} (hi : s.popped.length < i)
    (hlt : i < s.pushed.length) : s.readIdx ≠ i % queueSize Size := by
  intro heq
  have hbehind := h.behind_le
  have hroom := h.room
  rw [h.readIdx_eq] at heq
  have := eq_of_mod_eq (Nat.le_of_lt hi) (by rw [queueSize]; omega) heq
  omega

/-- **A step of the consumer.** -/
theorem pop_step (h : Coherent s behind ahead) (residue : T) :
    ∃ ahead', Coherent (popStep s residue).1 behind ahead' := by
  have hpop := h.popped_prefix.length_le
  have hat := h.consumer_at
  have hahead := h.le_ahead
  have hle := h.ahead_le
  have hslots := h.slots
  unfold popStep
  cases hc : s.consumer with
  | idle =>
      have hcount : readCount s = s.popped.length := by simp only [readCount, hc]
      rw [hcount] at hahead hslots
      simp only
      split
      · exact ⟨ahead, { h with le_ahead := hahead, slots := hslots, consumer_at := rfl }⟩
      · rename_i hne
        rw [h.cachedWriteIdx_eq, h.readIdx_eq_iff hahead hle] at hne
        exact ⟨ahead, { h with
          le_ahead := hahead
          slots := hslots
          consumer_at := ⟨rfl, by simp only; omega⟩ }⟩
  | reload readIndex =>
      have hcount : readCount s = s.popped.length := by simp only [readCount, hc]
      rw [hcount] at hslots
      rw [hc] at hat
      simp only
      split
      · exact ⟨s.pushed.length, { h with
          le_ahead := hpop
          ahead_le := le_refl _
          cachedWriteIdx_eq := h.writeIdx_eq
          slots := hslots
          consumer_at := trivial }⟩
      · rename_i hne
        rw [hat, h.writeIdx_eq, h.readIdx_eq_iff hpop (le_refl _)] at hne
        exact ⟨s.pushed.length, { h with
          le_ahead := hpop
          ahead_le := le_refl _
          cachedWriteIdx_eq := h.writeIdx_eq
          slots := hslots
          consumer_at := ⟨hat, by simp only; omega⟩ }⟩
  | copy readIndex =>
      have hcount : readCount s = s.popped.length := by simp only [readCount, hc]
      rw [hcount] at hslots
      rw [hc] at hat
      obtain ⟨rfl, hlt⟩ := hat
      have hhead := hslots _ (le_refl _) (by omega)
      rw [← h.readIdx_eq] at hhead
      refine ⟨ahead, { h with
        le_ahead := hlt
        slots := ?_
        producer_at := ?_
        consumer_at := ⟨rfl, hhead⟩ }⟩
      · intro i hi hlt'
        simp only
        rw [Function.update_of_ne (h.read_slot_alone hi hlt').symm]
        exact hslots i (Nat.le_of_succ_le hi) hlt'
      · have hpat := h.producer_at
        simp only
        cases hp : s.producer with
        | publish val nextWriteIndex =>
            rw [hp] at hpat
            obtain ⟨hnext, hroom, hval⟩ := hpat
            have hfree := h.write_slot_free hroom (le_of_eq hcount) (by omega)
            rw [← h.readIdx_eq] at hfree
            exact ⟨hnext, hroom, by rw [Function.update_of_ne hfree, hval]⟩
        | _ =>
            rw [hp] at hpat
            exact hpat
  | release val nextReadIndex =>
      have hcount : readCount s = s.popped.length + 1 := by simp only [readCount, hc]
      rw [hcount] at hahead hslots
      rw [hc] at hat
      obtain ⟨hnext, hval⟩ := hat
      refine ⟨ahead, { h with
        popped_prefix := ?_
        behind_le := ?_
        le_ahead := ?_
        readIdx_eq := ?_
        slots := ?_
        consumer_at := trivial }⟩
      · obtain ⟨rest, hrest⟩ := h.popped_prefix
        simp only
        rw [← hrest] at hval ⊢
        rw [List.getElem?_append_right (le_refl _), Nat.sub_self] at hval
        cases rest with
        | nil => simp at hval
        | cons v rest =>
            simp only [List.getElem?_cons_zero, Option.some.injEq] at hval
            rw [hval]
            exact ⟨rest, by simp⟩
      · simp only [List.length_append, List.length_singleton]
        exact Nat.le_succ_of_le h.behind_le
      · simp only [readCount, List.length_append, List.length_singleton]
        exact hahead
      · simp only [List.length_append, List.length_singleton]
        rw [hnext, h.readIdx_eq, nextIndex_mod]
      · intro i hi hlt
        simp only [readCount, List.length_append, List.length_singleton] at hi
        exact hslots i hi hlt

end Coherent

theorem reachable_coherent {s : State T Size} (h : (machine T Size).Reachable s) :
    ∃ behind ahead, Coherent s behind ahead := by
  refine h.invariant (fun s => ∃ behind ahead, Coherent s behind ahead) ?_ ?_
  · rintro s ⟨storage, rfl⟩
    exact ⟨0, 0, initial_coherent storage⟩
  · rintro s e t ⟨behind, ahead, hs⟩ hstep
    cases e with
    | push arg =>
        cases hstep
        obtain ⟨behind', hs'⟩ := hs.push_step arg
        exact ⟨behind', ahead, hs'⟩
    | pop residue =>
        cases hstep
        obtain ⟨ahead', hs'⟩ := hs.pop_step residue
        exact ⟨behind, ahead', hs'⟩

/-! ### The queue the two threads share -/

/-- The values pushed and not popped. -/
def Coherent.outstanding {s : State T Size} {behind ahead : Nat} (h : Coherent s behind ahead) :
    BoundedFifo T Size where
  items := s.pushed.drop s.popped.length
  length_le := by
    have hbehind := h.behind_le
    have hroom := h.room
    rw [List.length_drop]
    omega

/-- A producer step that returns true enqueues the value it pushes; every other one leaves the queue alone. -/
theorem Coherent.push_refines {s : State T Size} {behind behind' ahead : Nat} {arg : T}
    (h : Coherent s behind ahead) (h' : Coherent (pushStep s arg).1 behind' ahead) :
    (pushStep s arg).1.popped = s.popped ∧
      ((∃ val, (pushStep s arg).2 = some true ∧ (pushStep s arg).1.pushed = s.pushed ++ [val] ∧
          h.outstanding.Step (.enqueue [val]) h'.outstanding) ∨
        ((pushStep s arg).2 ≠ some true ∧ (pushStep s arg).1.pushed = s.pushed ∧
          h'.outstanding = h.outstanding)) := by
  have hpop := h.popped_prefix.length_le
  cases hp : s.producer with
  | publish val nextWriteIndex =>
      refine ⟨by rw [pushStep, hp], Or.inl ⟨val, by rw [pushStep, hp], by rw [pushStep, hp], ?_⟩⟩
      simp only [BoundedFifo.Step, outstanding, pushStep, hp]
      rw [List.drop_append_of_le_length hpop]
  | copy val writeIndex nextWriteIndex =>
      refine ⟨by rw [pushStep, hp], Or.inr ⟨by simp [pushStep, hp], by rw [pushStep, hp], ?_⟩⟩
      simp only [outstanding, pushStep, hp]
  | idle | reload val writeIndex nextWriteIndex =>
      have hpushed : (pushStep s arg).1.pushed = s.pushed := by
        simp only [pushStep, hp]
        split <;> rfl
      have hpopped : (pushStep s arg).1.popped = s.popped := by
        simp only [pushStep, hp]
        split <;> rfl
      refine ⟨hpopped, Or.inr ⟨?_, hpushed, ?_⟩⟩
      · simp only [pushStep, hp]
        split <;> simp
      · simp only [outstanding, hpushed, hpopped]

/-- A consumer step that returns a value dequeues it; every other one leaves the queue alone. -/
theorem Coherent.pop_refines {s : State T Size} {behind ahead ahead' : Nat} {residue : T}
    (h : Coherent s behind ahead) (h' : Coherent (popStep s residue).1 behind ahead') :
    (popStep s residue).1.pushed = s.pushed ∧
      ((∃ val, (popStep s residue).2 = some (some val) ∧ (popStep s residue).1.popped = s.popped ++ [val] ∧
          h.outstanding.Step (.dequeue [val]) h'.outstanding) ∨
        ((∀ val, (popStep s residue).2 ≠ some (some val)) ∧ (popStep s residue).1.popped = s.popped ∧
          h'.outstanding = h.outstanding)) := by
  have hat := h.consumer_at
  cases hc : s.consumer with
  | release val nextReadIndex =>
      rw [hc] at hat
      refine ⟨by rw [popStep, hc], Or.inl ⟨val, by rw [popStep, hc], by rw [popStep, hc], ?_⟩⟩
      obtain ⟨hlt, hval⟩ := List.getElem?_eq_some_iff.mp hat.2
      simp only [BoundedFifo.Step, outstanding, popStep, hc, List.length_append,
        List.length_singleton]
      rw [List.drop_eq_getElem_cons hlt, hval]
      rfl
  | copy readIndex =>
      refine ⟨by rw [popStep, hc], Or.inr ⟨by simp [popStep, hc], by rw [popStep, hc], ?_⟩⟩
      simp only [outstanding, popStep, hc]
  | idle | reload readIndex =>
      have hpushed : (popStep s residue).1.pushed = s.pushed := by
        simp only [popStep, hc]
        split <;> rfl
      have hpopped : (popStep s residue).1.popped = s.popped := by
        simp only [popStep, hc]
        split <;> rfl
      refine ⟨hpushed, Or.inr ⟨?_, hpopped, ?_⟩⟩
      · intro val
        simp only [popStep, hc]
        split <;> simp
      · simp only [outstanding, hpushed, hpopped]

/-- **The two threads share a queue of at most `Size` values.** It saw the values of the successful pushes
and pops, in their order. -/
theorem reachable_refines {s : State T Size} (h : (machine T Size).Reachable s) :
    ∃ behind ahead, ∃ hs : Coherent s behind ahead, ∃ es,
      (BoundedFifo.machine T Size).Run BoundedFifo.empty es hs.outstanding ∧
        BoundedFifo.enqueued es = s.pushed ∧ BoundedFifo.dequeued es = s.popped := by
  induction h with
  | init hinit =>
      obtain ⟨storage, rfl⟩ := hinit
      exact ⟨0, 0, initial_coherent storage, [], .refl _, rfl, rfl⟩
  | @step s t e _ _ hstep ih =>
      obtain ⟨behind, ahead, hs, es, hrun, hpushed, hpopped⟩ := ih
      cases e with
      | push arg =>
          cases hstep
          obtain ⟨behind', hs'⟩ := hs.push_step arg
          refine ⟨behind', ahead, hs', ?_⟩
          obtain ⟨hsame, ⟨val, -, hval, henqueue⟩ | ⟨-, hkept, heq⟩⟩ := hs.push_refines hs'
          · refine ⟨es ++ [.enqueue [val]], hrun.snoc ?_, ?_, ?_⟩
            · exact henqueue
            · rw [BoundedFifo.enqueued_append, hpushed, hval]
              rfl
            · rw [BoundedFifo.dequeued_append, hpopped, hsame]
              exact List.append_nil _
          · exact ⟨es, heq ▸ hrun, hpushed.trans hkept.symm, hpopped.trans hsame.symm⟩
      | pop residue =>
          cases hstep
          obtain ⟨ahead', hs'⟩ := hs.pop_step residue
          refine ⟨behind, ahead', hs', ?_⟩
          obtain ⟨hsame, ⟨val, -, hval, hdequeue⟩ | ⟨-, hkept, heq⟩⟩ := hs.pop_refines hs'
          · refine ⟨es ++ [.dequeue [val]], hrun.snoc ?_, ?_, ?_⟩
            · exact hdequeue
            · rw [BoundedFifo.enqueued_append, hpushed, hsame]
              exact List.append_nil _
            · rw [BoundedFifo.dequeued_append, hpopped, hval]
              rfl
          · exact ⟨es, heq ▸ hrun, hpushed.trans hsame.symm, hpopped.trans hkept.symm⟩

/-- **The queue under every interleaving.** What has been popped is a prefix of what has been pushed
and at most `Size` values are outstanding; the producer about to write a slot writes none whose value is
published and not yet read (the value pushed as number `i` lies in slot `i % (Size + 1)`); a push that
fails did so on loading the read index of a full queue, a pop on loading the write index of an empty
one. -/
theorem interleaving_safe {s : State T Size} (h : (machine T Size).Reachable s) :
    s.popped <+: s.pushed ∧
    s.pushed.length ≤ s.popped.length + Size ∧
    (∀ val writeIndex nextWriteIndex, s.producer = .copy val writeIndex nextWriteIndex →
      ∀ i, readCount s ≤ i → i < s.pushed.length → writeIndex ≠ i % queueSize Size) ∧
    (∀ i, readCount s ≤ i → i < s.pushed.length →
      s.pushed[i]? = some (s.queue (i % queueSize Size))) ∧
    (∀ arg, (pushStep s arg).2 = some false → s.pushed.length = s.popped.length + Size) ∧
    (∀ residue, (popStep s residue).2 = some none → s.pushed.length = s.popped.length) := by
  obtain ⟨behind, ahead, hs⟩ := reachable_coherent h
  have hpop := hs.popped_prefix.length_le
  have hbehind := hs.behind_le
  have hroom := hs.room
  refine ⟨hs.popped_prefix, by omega, ?_, hs.slots, ?_, ?_⟩
  · intro val writeIndex nextWriteIndex hp i hread hi
    have hat := hs.producer_at
    rw [hp] at hat
    obtain ⟨rfl, _, hlt⟩ := hat
    exact hs.write_slot_free hlt hread hi
  · intro arg hfalse
    have hat := hs.producer_at
    unfold pushStep at hfalse
    cases hp : s.producer with
    | reload val writeIndex nextWriteIndex =>
        rw [hp] at hat hfalse
        simp only at hfalse
        split at hfalse
        · rename_i heq
          rwa [hat.2, hs.readIdx_eq, hs.nextIndex_eq_iff hpop (by omega)] at heq
        · cases hfalse
    | idle =>
        rw [hp] at hfalse
        simp only at hfalse
        split at hfalse <;> cases hfalse
    | _ =>
        rw [hp] at hfalse
        cases hfalse
  · intro residue hnone
    have hat := hs.consumer_at
    unfold popStep at hnone
    cases hc : s.consumer with
    | reload readIndex =>
        rw [hc] at hat hnone
        simp only at hnone
        split at hnone
        · rename_i heq
          rw [hat, hs.writeIdx_eq, hs.readIdx_eq_iff hpop (le_refl _)] at heq
          exact heq.symm
        · cases hnone
    | idle =>
        rw [hc] at hnone
        simp only at hnone
        split at hnone <;> cases hnone
    | _ =>
        rw [hc] at hnone
        cases hnone

/-- One value in a queue of one: the second push finds it full. -/
theorem interleaving_safe_full :
    ∃ s : State Nat 1, (machine Nat 1).Reachable s ∧ (pushStep s 8).2 = some false ∧
      s.pushed.length = s.popped.length + 1 := by
  have hstep : ∀ {s : State Nat 1} (arg : Nat), (machine Nat 1).Reachable s →
      (machine Nat 1).Reachable (pushStep s arg).1 :=
    fun arg hs => hs.step (show (machine Nat 1).Step _ (.push arg) _ from rfl)
  have hinit : (machine Nat 1).Reachable (initial 1 fun _ => 0) :=
    Machine.Reachable.init ⟨_, rfl⟩
  have hs := hstep 8 (hstep 7 (hstep 7 (hstep 7 hinit)))
  exact ⟨_, hs, rfl, (interleaving_safe hs).2.2.2.2.1 8 rfl⟩

end TorrentEngine.SpscQueue
