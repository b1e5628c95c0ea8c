import TorrentEngine.SpscQueue
import TorrentEngine.TrackerResponse

/-! Endpoints on their way from the tracker's thread to the thread of the connections: `active_state_handler`
pushes what a response names and then calls `send` on the consumer's `ev::async`; the loop of the other thread
takes the signal and calls `drain_discovered`, which pops until a pop fails. The two threads interleave
between any two atomic accesses, and signals sent before the loop takes one are one signal. -/

open Transition

namespace TorrentEngine

open SpscQueue

variable {T : Type*} {Size : Nat}

namespace SpscQueue

/-- How far a `push` has come. -/
def Producer.stage : Producer T → Nat
  | .idle => 0
  | .reload _ _ _ => 1
  | .copy _ _ _ => 2
  | .publish _ _ => 3

/-- The value of the `push` under way, or the argument of the one that starts. -/
def Producer.valueOr (arg : T) : Producer T → T
  | .idle => arg
  | .reload val _ _ => val
  | .copy val _ _ => val
  | .publish val _ => val

/-- How far a `pop` has come. -/
def Consumer.stage : Consumer T → Nat
  | .idle => 0
  | .reload _ => 1
  | .copy _ => 2
  | .release _ _ => 3

theorem Producer.stage_le (producer : Producer T) : producer.stage ≤ 3 := by
  cases producer <;> simp [Producer.stage]

theorem Consumer.stage_le (consumer : Consumer T) : consumer.stage ≤ 3 := by
  cases consumer <;> simp [Consumer.stage]

theorem Producer.stage_idle : (Producer.idle : Producer T).stage = 0 := rfl

theorem Consumer.stage_idle : (Consumer.idle : Consumer T).stage = 0 := rfl

/-- What a step of a `push` can do. -/
inductive Pushing (s : State T Size) (arg : T) : State T Size × Option Bool → Prop
  | under {q : State T Size} : q.pushed = s.pushed → q.popped = s.popped → q.consumer = s.consumer →
      s.producer.stage < q.producer.stage →
      (∀ other, q.producer.valueOr other = s.producer.valueOr arg) → Pushing s arg (q, none)
  | full {q : State T Size} : q.pushed = s.pushed → q.popped = s.popped → q.consumer = s.consumer →
      q.producer = .idle → Pushing s arg (q, some false)
  | pushed {q : State T Size} : q.pushed = s.pushed ++ [s.producer.valueOr arg] → q.popped = s.popped →
      q.consumer = s.consumer → q.producer = .idle → Pushing s arg (q, some true)

theorem pushStep_spec (s : State T Size) (arg : T) : Pushing s arg (pushStep s arg) := by
  rw [pushStep]
  cases hp : s.producer with
  | idle =>
      dsimp only
      split
      · exact .under rfl rfl rfl (by simp [hp, Producer.stage]) fun _ => by rw [hp]; rfl
      · exact .under rfl rfl rfl (by simp [hp, Producer.stage]) fun _ => by rw [hp]; rfl
  | reload val writeIndex nextWriteIndex =>
      dsimp only
      split
      · exact .full rfl rfl rfl rfl
      · exact .under rfl rfl rfl (by simp [hp, Producer.stage]) fun _ => by rw [hp]; rfl
  | copy val writeIndex nextWriteIndex =>
      exact .under rfl rfl rfl (by simp [hp, Producer.stage]) fun _ => by rw [hp]; rfl
  | publish val nextWriteIndex => exact .pushed (by rw [hp]; rfl) rfl rfl rfl

/-- What a step of a `pop` can do. -/
inductive Popping (s : State T Size) : State T Size × Option (Option T) → Prop
  | under {q : State T Size} : q.pushed = s.pushed → q.popped = s.popped → q.producer = s.producer →
      s.consumer.stage < q.consumer.stage → Popping s (q, none)
  | empty {q : State T Size} : q.pushed = s.pushed → q.popped = s.popped → q.producer = s.producer →
      s.consumer.stage = 1 → q.consumer = .idle → Popping s (q, some none)
  | popped {q : State T Size} {val : T} : q.pushed = s.pushed → q.popped = s.popped ++ [val] →
      q.producer = s.producer → s.consumer.stage = 3 → q.consumer = .idle → Popping s (q, some (some val))

theorem popStep_spec (s : State T Size) (residue : T) : Popping s (popStep s residue) := by
  rw [popStep]
  cases hc : s.consumer with
  | idle =>
      dsimp only
      split
      · exact .under rfl rfl rfl (by simp [hc, Consumer.stage])
      · exact .under rfl rfl rfl (by simp [hc, Consumer.stage])
  | reload readIndex =>
      dsimp only
      split
      · exact .empty rfl rfl rfl (by rw [hc]; rfl) rfl
      · exact .under rfl rfl rfl (by simp [hc, Consumer.stage])
  | copy readIndex => exact .under rfl rfl rfl (by simp [hc, Consumer.stage])
  | release val nextReadIndex => exact .popped rfl rfl rfl (by rw [hc]; rfl) rfl

/-- A `pop` fails only on an empty queue. -/
theorem Coherent.pop_empty {s : State T Size} {behind ahead : Nat} (hs : Coherent s behind ahead)
    {residue : T} (h : (popStep s residue).2 = some none) : s.popped.length = s.pushed.length := by
  have hat := hs.consumer_at
  rw [popStep] at h
  cases hc : s.consumer with
  | reload readIndex =>
      rw [hc] at hat h
      dsimp only at h
      split at h
      · rename_i heq
        rwa [hat, hs.writeIdx_eq, hs.readIdx_eq_iff hs.popped_prefix.length_le (le_refl _)] at heq
      · cases h
  | idle =>
      rw [hc] at h
      dsimp only at h
      split at h <;> cases h
  | copy readIndex =>
      rw [hc] at h
      cases h
  | release val nextReadIndex =>
      rw [hc] at h
      cases h

end SpscQueue

/-! ### The two threads -/

/-- Where the tracker's thread stands: outside the handler, or with these endpoints left to push. -/
inductive Announcing (T : Type*) where
  | outside
  | pushing (left : List T) (notifyConsumer : Bool)

/-- The shared queue, the signal on its way, and where both threads stand. `announced` are the endpoints of all
responses so far. -/
structure Handover (T : Type*) (Size : Nat) where
  queue : State T Size
  handler : Announcing T
  /-- The flag `send` raises. -/
  sent : Bool
  /-- The callback is due in this turn of the loop. -/
  pending : Bool
  /-- The loop is inside `drain_discovered`. -/
  draining : Bool
  announced : List T

namespace Handover

inductive Event (T : Type*) where
  | announce (contacts : List T)
  | produce
  | collect
  | callback
  | consume (residue : T)

def initial (Size : Nat) (storage : Nat → T) : Handover T Size :=
  ⟨SpscQueue.initial Size storage, .outside, false, false, false, []⟩

/-- A step of the tracker's thread inside the handler. -/
def produce (h : Handover T Size) : Option (Handover T Size) :=
  match h.handler with
  | .outside => none
  | .pushing [] notifyConsumer => some { h with handler := .outside, sent := notifyConsumer || h.sent }
  | .pushing (contact :: left) notifyConsumer =>
      match pushStep h.queue contact with
      | (queue, none) => some { h with queue }
      | (queue, some pushed) => some { h with queue, handler := .pushing left (pushed || notifyConsumer) }

/-- A step of the loop inside `drain_discovered`. -/
def consume (h : Handover T Size) (residue : T) : Option (Handover T Size) :=
  if h.draining then
    match popStep h.queue residue with
    | (queue, some none) => some { h with queue, draining := false }
    | (queue, _) => some { h with queue }
  else none

def step (h : Handover T Size) : Event T → Option (Handover T Size)
  | .announce contacts =>
      match h.handler with
      | .outside =>
          some { h with handler := .pushing contacts false, announced := h.announced ++ contacts }
      | .pushing _ _ => none
  | .produce => produce h
  | .collect => if h.sent ∧ ¬ h.draining then some { h with sent := false, pending := true } else none
  | .callback =>
      if h.pending ∧ ¬ h.draining then some { h with pending := false, draining := true } else none
  | .consume residue => consume h residue

def machine (T : Type*) (Size : Nat) : Machine (Handover T Size) (Event T) where
  Init h := ∃ storage, h = initial Size storage
  Step h e h' := step h e = some h'

/-- No thread has anything left to do. -/
def AtRest (h : Handover T Size) : Prop :=
  h.handler = .outside ∧ h.sent = false ∧ h.pending = false ∧ h.draining = false

/-! ### What is on its way is announced -/

/-- The endpoints that are still to be pushed. -/
def left (h : Handover T Size) : List T :=
  match h.handler with
  | .outside => []
  | .pushing left _ => left

/-- The handler will call `send`. -/
def owesSend (h : Handover T Size) : Bool :=
  match h.handler with
  | .outside => false
  | .pushing _ notifyConsumer => notifyConsumer

/-- The consumer is in the loop of its pops, or is on its way there. -/
def Woken (h : Handover T Size) : Prop :=
  h.owesSend = true ∨ h.sent = true ∨ h.pending = true ∨ h.draining = true

structure Sound (h : Handover T Size) : Prop where
  coherent : ∃ behind ahead, Coherent h.queue behind ahead
  woken : h.queue.popped.length < h.queue.pushed.length → h.Woken
  idle_of_done : h.left = [] → h.queue.producer = .idle
  value_eq : ∀ contact ∈ h.left.head?, h.queue.producer.valueOr contact = contact
  idle_of_waiting : h.draining = false → h.queue.consumer = .idle
  announced_eq : ∃ before, h.announced = before ++ h.left ∧ h.queue.pushed.Sublist before

theorem initial_sound (storage : Nat → T) : Sound (initial Size storage) where
  coherent := ⟨0, 0, initial_coherent storage⟩
  woken h := absurd h (Nat.lt_irrefl 0)
  idle_of_done _ := rfl
  value_eq _ _ := rfl
  idle_of_waiting _ := rfl
  announced_eq := ⟨[], rfl, List.Sublist.refl []⟩

namespace Sound

variable {h h' : Handover T Size}

theorem announce (hs : Sound h) {contacts : List T} (hstep : step h (.announce contacts) = some h') :
    Sound h' := by
  rw [step] at hstep
  cases hh : h.handler with
  | pushing _ _ =>
      rw [hh] at hstep
      cases hstep
  | outside =>
      rw [hh] at hstep
      cases hstep
      have hleft : h.left = [] := by rw [left, hh]
      have hidle := hs.idle_of_done hleft
      obtain ⟨before, hbefore, hpushed⟩ := hs.announced_eq
      rw [hleft, List.append_nil] at hbefore
      refine ⟨hs.coherent, fun hlt => ?_, fun _ => hidle, fun contact _ => ?_, hs.idle_of_waiting,
        ⟨h.announced, rfl, hbefore ▸ hpushed⟩⟩
      · obtain howes | hrest := hs.woken hlt
        · rw [owesSend, hh] at howes
          cases howes
        · exact Or.inr hrest
      · dsimp only
        rw [hidle]
        rfl

theorem collect (hs : Sound h) (hstep : step h .collect = some h') : Sound h' := by
  rw [step] at hstep
  split at hstep
  · cases hstep
    exact { hs with woken := fun _ => Or.inr (Or.inr (Or.inl rfl)) }
  · cases hstep

theorem callback (hs : Sound h) (hstep : step h .callback = some h') : Sound h' := by
  rw [step] at hstep
  split at hstep
  · cases hstep
    exact { hs with
      woken := fun _ => Or.inr (Or.inr (Or.inr rfl))
      idle_of_waiting := fun h => by cases h }
  · cases hstep

theorem consume (hs : Sound h) {residue : T} (hstep : Handover.consume h residue = some h') :
    Sound h' := by
  rw [Handover.consume] at hstep
  split at hstep
  case isFalse => cases hstep
  case isTrue hdraining =>
    obtain ⟨behind, ahead, hcoherent⟩ := hs.coherent
    obtain ⟨ahead', hcoherent'⟩ := hcoherent.pop_step residue
    have hempty := @Coherent.pop_empty _ _ _ _ _ hcoherent residue
    have hspec := popStep_spec h.queue residue
    generalize popStep h.queue residue = result at hstep hspec hcoherent' hempty
    cases hspec with
    | under hpushed hpopped hproducer _ =>
        cases hstep
        exact {
          coherent := ⟨behind, ahead', hcoherent'⟩
          woken := fun _ => Or.inr (Or.inr (Or.inr hdraining))
          idle_of_done := fun hleft => hproducer.trans (hs.idle_of_done hleft)
          value_eq := fun contact hmem => hproducer ▸ hs.value_eq contact hmem
          idle_of_waiting := fun h => absurd (hdraining.symm.trans h) (by decide)
          announced_eq := hpushed ▸ hs.announced_eq }
    | empty hpushed hpopped hproducer _ hidle =>
        cases hstep
        have hlength := hempty rfl
        exact {
          coherent := ⟨behind, ahead', hcoherent'⟩
          woken := fun hlt => by
            dsimp only at hlt
            rw [hpushed, hpopped, hlength] at hlt
            exact absurd hlt (Nat.lt_irrefl _)
          idle_of_done := fun hleft => hproducer.trans (hs.idle_of_done hleft)
          value_eq := fun contact hmem => hproducer ▸ hs.value_eq contact hmem
          idle_of_waiting := fun _ => hidle
          announced_eq := hpushed ▸ hs.announced_eq }
    | popped hpushed hpopped hproducer _ hidle =>
        cases hstep
        exact {
          coherent := ⟨behind, ahead', hcoherent'⟩
          woken := fun _ => Or.inr (Or.inr (Or.inr hdraining))
          idle_of_done := fun hleft => hproducer.trans (hs.idle_of_done hleft)
          value_eq := fun contact hmem => hproducer ▸ hs.value_eq contact hmem
          idle_of_waiting := fun _ => hidle
          announced_eq := hpushed ▸ hs.announced_eq }

theorem finish (hs : Sound h) {notifyConsumer : Bool} (hh : h.handler = .pushing [] notifyConsumer) :
    Sound { h with handler := .outside, sent := notifyConsumer || h.sent } := by
  have hleft : h.left = [] := by rw [left, hh]
  refine { hs with
    woken := fun hlt => ?_
    idle_of_done := fun _ => hs.idle_of_done hleft
    value_eq := fun contact hmem => by cases hmem
    announced_eq := by
      have hannounced := hs.announced_eq
      rw [hleft] at hannounced
      exact hannounced }
  obtain howes | hsent | hrest := hs.woken hlt
  · rw [owesSend, hh] at howes
    exact Or.inr (Or.inl (Bool.or_eq_true_iff.mpr (Or.inl howes)))
  · exact Or.inr (Or.inl (Bool.or_eq_true_iff.mpr (Or.inr hsent)))
  · exact Or.inr (Or.inr hrest)

theorem produce (hs : Sound h) (hstep : Handover.produce h = some h') : Sound h' := by
  obtain ⟨queue, handler, sent, pending, draining, announced⟩ := h
  cases handler with
  | outside => cases hstep
  | pushing left notifyConsumer =>
      cases left with
      | nil =>
          cases hstep
          exact hs.finish rfl
      | cons contact left =>
          obtain ⟨before, hbefore, hsublist⟩ := hs.announced_eq
          obtain ⟨behind, ahead, hcoherent⟩ := hs.coherent
          obtain ⟨behind', hcoherent'⟩ := hcoherent.push_step contact
          have hvalue : queue.producer.valueOr contact = contact := hs.value_eq contact rfl
          have hspec := pushStep_spec queue contact
          simp only [Handover.produce] at hstep
          dsimp only at hcoherent'
          generalize pushStep queue contact = result at hstep hspec hcoherent'
          have hbefore' : announced = before ++ [contact] ++ left := by
            rw [List.append_assoc, List.singleton_append]
            exact hbefore
          cases hspec with
          | under hpushed hpopped hconsumer hstage hval =>
              cases hstep
              exact {
                coherent := ⟨behind', ahead, hcoherent'⟩
                woken := fun hlt => hs.woken (by rw [← hpushed, ← hpopped]; exact hlt)
                idle_of_done := fun hdone => absurd hdone (List.cons_ne_nil contact left)
                value_eq := fun other hmem => by
                  cases hmem
                  exact (hval contact).trans hvalue
                idle_of_waiting := fun hwaiting => hconsumer.trans (hs.idle_of_waiting hwaiting)
                announced_eq := hpushed ▸ hs.announced_eq }
          | full hpushed hpopped hconsumer hidle =>
              cases hstep
              exact {
                coherent := ⟨behind', ahead, hcoherent'⟩
                woken := fun hlt => hs.woken (by rw [← hpushed, ← hpopped]; exact hlt)
                idle_of_done := fun _ => hidle
                value_eq := fun other _ => by rw [hidle]; rfl
                idle_of_waiting := fun hwaiting => hconsumer.trans (hs.idle_of_waiting hwaiting)
                announced_eq := ⟨before ++ [contact], hbefore',
                  hpushed ▸ hsublist.trans (List.sublist_append_left _ _)⟩ }
          | pushed hpushed hpopped hconsumer hidle =>
              cases hstep
              rw [hvalue] at hpushed
              exact {
                coherent := ⟨behind', ahead, hcoherent'⟩
                woken := fun _ => Or.inl rfl
                idle_of_done := fun _ => hidle
                value_eq := fun other _ => by rw [hidle]; rfl
                idle_of_waiting := fun hwaiting => hconsumer.trans (hs.idle_of_waiting hwaiting)
                announced_eq := ⟨before ++ [contact], hbefore',
                  hpushed ▸ hsublist.append (List.Sublist.refl [contact])⟩ }

theorem step (hs : Sound h) {e : Event T} (hstep : Handover.step h e = some h') : Sound h' := by
  cases e with
  | announce contacts => exact hs.announce hstep
  | produce => exact hs.produce hstep
  | collect => exact hs.collect hstep
  | callback => exact hs.callback hstep
  | consume residue => exact hs.consume hstep

theorem run (hs : Sound h) {es : List (Event T)} (hrun : (machine T Size).Run h es h') : Sound h' := by
  induction hrun with
  | refl => exact hs
  | snoc _ hstep ih => exact ih.step hstep

end Sound

theorem reachable_sound {h : Handover T Size} (hreach : (machine T Size).Reachable h) : Sound h := by
  apply hreach.invariant Sound
  · rintro h ⟨storage, rfl⟩
    exact initial_sound storage
  · intro h e h' hs hstep
    exact hs.step hstep

/-! ### The threads come to rest -/

/-- What the tracker's thread may still cause: the steps of a push, and for what it pushes the steps of a pop. -/
def handlerRank (h : Handover T Size) : Nat :=
  match h.handler with
  | .outside => 0
  | .pushing left _ => 6 + 8 * left.length - h.queue.producer.stage

def drainRank (h : Handover T Size) : Nat := if h.draining then 3 - h.queue.consumer.stage else 0

def signalRank (h : Handover T Size) : Nat := (if h.pending then 4 else 0) + if h.sent then 5 else 0

/-- A bound on the steps both threads take before they are at rest, where none is announced to. -/
def rank (h : Handover T Size) : Nat :=
  handlerRank h + drainRank h + signalRank h + 4 * (h.queue.pushed.length - h.queue.popped.length)

variable {h h' : Handover T Size}

theorem produce_rank (hs : Sound h) (hstep : produce h = some h') : rank h' < rank h := by
  obtain ⟨queue, handler, sent, pending, draining, announced⟩ := h
  cases handler with
  | outside => cases hstep
  | pushing left notifyConsumer =>
      cases left with
      | nil =>
          have hidle : queue.producer = .idle := hs.idle_of_done rfl
          have hsignal : (if (notifyConsumer || sent) = true then 5 else 0) ≤ 5 := by split <;> omega
          cases hstep
          simp only [rank, handlerRank, drainRank, signalRank, hidle, Producer.stage_idle, List.length_nil]
          omega
      | cons contact left =>
          have hspec := pushStep_spec queue contact
          have hstage := queue.producer.stage_le
          simp only [produce] at hstep
          generalize pushStep queue contact = result at hstep hspec
          cases hspec with
          | under hpushed hpopped hconsumer hnext _ =>
              cases hstep
              simp only [rank, handlerRank, drainRank, signalRank, hpushed, hpopped, hconsumer,
                List.length_cons]
              omega
          | full hpushed hpopped hconsumer hidle =>
              cases hstep
              simp only [rank, handlerRank, drainRank, signalRank, hpushed, hpopped, hconsumer, hidle,
                Producer.stage_idle, List.length_cons]
              omega
          | pushed hpushed hpopped hconsumer hidle =>
              cases hstep
              simp only [rank, handlerRank, drainRank, signalRank, hpushed, hpopped, hconsumer, hidle,
                Producer.stage_idle, List.length_cons, List.length_append, List.length_nil]
              omega

theorem consume_rank (hs : Sound h) {residue : T} (hstep : consume h residue = some h') :
    rank h' < rank h := by
  have hs' := hs.consume hstep
  obtain ⟨behind, ahead, hcoherent⟩ := hs'.coherent
  have hle := hcoherent.popped_prefix.length_le
  obtain ⟨queue, handler, sent, pending, draining, announced⟩ := h
  cases draining with
  | false => cases hstep
  | true =>
      have hspec := popStep_spec queue residue
      simp only [consume, if_pos] at hstep
      generalize popStep queue residue = result at hstep hspec
      cases hspec with
      | under hpushed hpopped hproducer hnext =>
          rename_i q
          have hstage := q.consumer.stage_le
          cases hstep
          simp only [rank, handlerRank, drainRank, signalRank, hpushed, hpopped, hproducer, if_pos]
          omega
      | empty hpushed hpopped hproducer hstage hidle =>
          cases hstep
          simp only [rank, handlerRank, drainRank, signalRank, hpushed, hpopped, hproducer, hstage, if_pos,
            Bool.false_eq_true, if_false]
          omega
      | popped hpushed hpopped hproducer hstage hidle =>
          cases hstep
          simp only [rank, handlerRank, drainRank, signalRank, hpushed, hpopped, hproducer, hidle, hstage,
            Consumer.stage_idle, if_pos, List.length_append, List.length_singleton] at hle ⊢
          omega

/-- An event of the threads themselves. -/
def Internal (e : Event T) : Prop := ∀ contacts, e ≠ .announce contacts

theorem step_rank (hs : Sound h) {e : Event T} (he : Internal e) (hstep : step h e = some h') :
    rank h' < rank h := by
  cases e with
  | announce contacts => exact absurd rfl (he contacts)
  | produce => exact produce_rank hs hstep
  | consume residue => exact consume_rank hs hstep
  | collect =>
      rw [step] at hstep
      split at hstep
      case isFalse => cases hstep
      case isTrue hcond =>
        cases hstep
        simp only [rank, handlerRank, drainRank, signalRank, hcond.1, if_true, Bool.false_eq_true, if_false]
        split <;> omega
  | callback =>
      rw [step] at hstep
      split at hstep
      case isFalse => cases hstep
      case isTrue hcond =>
        have hwaiting : h.draining = false := Bool.eq_false_iff.mpr hcond.2
        have hidle := hs.idle_of_waiting hwaiting
        cases hstep
        simp only [rank, handlerRank, drainRank, signalRank, hcond.1, hwaiting, hidle, Consumer.stage_idle,
          if_true, Bool.false_eq_true, if_false]
        omega

/-- Unless both threads are at rest, one of them can go on. -/
theorem exists_step (h : Handover T Size) (hrest : ¬ AtRest h) : ∃ e h', Internal e ∧ step h e = some h' := by
  cases hh : h.handler with
  | pushing left notifyConsumer =>
      refine ⟨.produce, ?_⟩
      simp only [step, produce, hh]
      split
      · rename_i heq
        cases heq
      · exact ⟨_, nofun, rfl⟩
      · split <;> exact ⟨_, nofun, rfl⟩
  | outside =>
      cases hdraining : h.draining with
      | true =>
          refine ⟨.consume (h.queue.queue 0), ?_⟩
          simp only [step, consume, hdraining, if_true]
          split <;> exact ⟨_, nofun, rfl⟩
      | false =>
          cases hpending : h.pending with
          | true =>
              exact ⟨.callback, _, nofun, if_pos ⟨hpending, by rw [hdraining]; exact Bool.false_ne_true⟩⟩
          | false =>
              cases hsent : h.sent with
              | true =>
                  exact ⟨.collect, _, nofun, if_pos ⟨hsent, by rw [hdraining]; exact Bool.false_ne_true⟩⟩
              | false => exact absurd ⟨hh, hsent, hpending, hdraining⟩ hrest

theorem run_rank {h t : Handover T Size} (hreach : (machine T Size).Reachable h) {es : List (Event T)}
    (hrun : (machine T Size).Run h es t) (hinternal : ∀ e ∈ es, Internal e) :
    es.length + rank t ≤ rank h := by
  induction hrun with
  | refl => rw [List.length_nil, Nat.zero_add]
  | snoc hrun hstep ih =>
      rw [List.forall_mem_append] at hinternal
      have hlt := step_rank (reachable_sound (hrun.reachable hreach))
        (hinternal.2 _ (List.mem_singleton_self _)) hstep
      have hle := ih hinternal.1
      rw [List.length_append, List.length_singleton]
      omega

theorem popped_eq_of_atRest (hs : Sound h) (hrest : AtRest h) : h.queue.popped = h.queue.pushed := by
  obtain ⟨behind, ahead, hcoherent⟩ := hs.coherent
  obtain ⟨hhandler, hsent, hpending, hdraining⟩ := hrest
  apply hcoherent.popped_prefix.eq_of_length_le
  by_contra hlt
  obtain howes | hon | hon | hon := hs.woken (Nat.lt_of_not_le hlt)
  · rw [owesSend, hhandler] at howes
    cases howes
  · exact absurd (hon.symm.trans hsent) (by decide)
  · exact absurd (hon.symm.trans hpending) (by decide)
  · exact absurd (hon.symm.trans hdraining) (by decide)

/-- **No wakeup is lost**, at whatever points the threads interleave: what has been drained is what was pushed,
in order and without gaps, all of it was announced, and while any of it waits in the queue the consumer is
draining, or a signal is on its way, or the thread that pushed has its `send` before it. -/
theorem no_lost_wakeup {h : Handover T Size} (hreach : (machine T Size).Reachable h) :
    h.queue.popped <+: h.queue.pushed ∧ h.queue.pushed.Sublist h.announced ∧
      (h.queue.popped ≠ h.queue.pushed → h.Woken) := by
  have hs := reachable_sound hreach
  obtain ⟨behind, ahead, hcoherent⟩ := hs.coherent
  obtain ⟨before, hannounced, hsublist⟩ := hs.announced_eq
  refine ⟨hcoherent.popped_prefix, ?_, fun hne => ?_⟩
  · rw [hannounced]
    exact hsublist.trans (List.sublist_append_left before h.left)
  · apply hs.woken
    by_contra hle
    exact hne (hcoherent.popped_prefix.eq_of_length_le (Nat.le_of_not_lt hle))

theorem reachable_next {h : Handover Nat 1} (hreach : (machine Nat 1).Reachable h) (e : Event Nat)
    {h' : Handover Nat 1} (hstep : step h e = some h') : (machine Nat 1).Reachable h' :=
  hreach.step (show (machine Nat 1).Step h e h' from hstep)

/-- One endpoint pushed, and its `send` still to come. -/
def pushedOne : Handover Nat 1 :=
  ⟨⟨Function.update (fun _ => 0) 0 7, 0, 0, 1, 0, .idle, .idle, [7], []⟩, .pushing [] true, false, false,
    false, [7]⟩

theorem pushedOne_reachable : (machine Nat 1).Reachable pushedOne := by
  have hinit : (machine Nat 1).Reachable (initial 1 fun _ => 0) := Machine.Reachable.init ⟨_, rfl⟩
  have hannounced := reachable_next hinit (.announce [7]) rfl
  exact reachable_next (reachable_next (reachable_next hannounced .produce rfl) .produce rfl) .produce rfl

theorem no_lost_wakeup_pushedOne : pushedOne.queue.popped ≠ pushedOne.queue.pushed ∧ pushedOne.Woken := by
  have hne : pushedOne.queue.popped ≠ pushedOne.queue.pushed := by decide
  exact ⟨hne, (no_lost_wakeup pushedOne_reachable).2.2 hne⟩

/-- **Between announcements the threads come to rest.** In no order can they take more steps than the rank they
start from, and where neither can take another, all that was pushed has been drained. -/
theorem comes_to_rest {h t : Handover T Size} (hreach : (machine T Size).Reachable h) {es : List (Event T)}
    (hrun : (machine T Size).Run h es t) (hinternal : ∀ e ∈ es, Internal e) :
    es.length + rank t ≤ rank h ∧
      ((∀ e h', Internal e → step t e ≠ some h') → AtRest t ∧ t.queue.popped = t.queue.pushed) := by
  refine ⟨run_rank hreach hrun hinternal, fun hstuck => ?_⟩
  have hrest : AtRest t := by
    by_contra hrest
    obtain ⟨e, h', he, hstep⟩ := exists_step t hrest
    exact hstuck e h' he hstep
  exact ⟨hrest, popped_eq_of_atRest (reachable_sound (hrun.reachable hreach)) hrest⟩

theorem run_next {h t u : Handover Nat 1} {es : List (Event Nat)} (hrun : (machine Nat 1).Run h es t)
    (e : Event Nat) (hstep : step t e = some u) : (machine Nat 1).Run h (es ++ [e]) u := .snoc hrun hstep

/-- The signal is sent and taken, and the callback pops the endpoint and finds the queue empty. -/
theorem comes_to_rest_pushedOne : ∃ (t : Handover Nat 1) (es : List (Event Nat)),
    (machine Nat 1).Run pushedOne es t ∧ es.length + rank t ≤ rank pushedOne ∧ AtRest t ∧
      t.queue.popped = [7] := by
  have hsent := run_next (.refl pushedOne) .produce rfl
  have hdue := run_next (run_next hsent .collect rfl) .callback rfl
  have hcopied := run_next (run_next (run_next hdue (.consume 0) rfl) (.consume 0) rfl) (.consume 0) rfl
  have hempty := run_next (run_next (run_next hcopied (.consume 0) rfl) (.consume 0) rfl) (.consume 0) rfl
  obtain ⟨hrank, hrest⟩ := comes_to_rest pushedOne_reachable hempty (by simp [Internal])
  obtain ⟨hatRest, hall⟩ := hrest fun e h' he hstep => by
    cases e with
    | announce contacts => exact he contacts rfl
    | produce => cases hstep
    | collect => cases hstep
    | callback => cases hstep
    | consume residue => cases hstep
  exact ⟨_, _, hempty, hrank, hatRest, hall⟩

end Handover

end TorrentEngine
