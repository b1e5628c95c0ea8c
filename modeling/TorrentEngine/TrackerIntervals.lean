import TorrentEngine.TrackerSpace
import Mathlib.Algebra.Order.Field.Rat
import Mathlib.Tactic.Ring

/-! The minimum interval over whole runs. Both timers of a tracker call one handler, which takes the first
of them to expire for the minimum timer. Where that is right, a tracker is interruptible only after its
minimum timer, and `reannounce_event` leaves it alone for as long as it asked. -/

open Transition

namespace TorrentEngine

open Bencode Tracker

namespace TrackerWorld

variable {env : TrackerEnvironment} {w w' : TrackerWorld} {e : TrackerEvent} {name n : ByteString}
  {a a' : Life}

/-- The maximum timer of a tracker that waits for the end of its minimum interval does not expire before
the minimum timer, and no start is handled while a request is outstanding. -/
structure InOrder (w : TrackerWorld) (e : TrackerEvent) : Prop where
  expires : ∀ name, e = .timerExpires name .maximum → ∀ tracker ∈ w.find name,
    tracker.Waiting → tracker.timers.minimum.active = false
  start : w.running e = some .start → w.requests = []

/-- The test of the first condition, by the event. -/
def minimumFirst (w : TrackerWorld) : TrackerEvent → Bool
  | .timerExpires name .maximum =>
      decide (∀ tracker ∈ w.find name, tracker.Waiting → tracker.timers.minimum.active = false)
  | _ => true

instance (w : TrackerWorld) (e : TrackerEvent) : Decidable (InOrder w e) :=
  decidable_of_iff (w.minimumFirst e = true ∧ (w.running e = some .start → w.requests = [])) (by
    constructor
    · rintro ⟨hfirst, hstart⟩
      refine ⟨?_, hstart⟩
      rintro name rfl
      exact of_decide_eq_true hfirst
    · intro h
      refine ⟨?_, h.start⟩
      cases e with
      | timerExpires name which =>
          cases which with
          | minimum => rfl
          | maximum => exact decide_eq_true (h.expires name rfl)
      | signal | finished | elapse | consume => rfl)

/-- An armed minimum timer keeps the tracker from being interrupted. -/
def Guarded (a : Life) : Prop :=
  a.tracker.timers.minimum.active = true → a.tracker.context.interruptible = false

/-- **Step lemma.** Every move keeps the guard, but for the expiry of a maximum timer that comes first. -/
theorem Moves.guarded (h : Moves w e n a (some a')) (hs : Sound a) (hguard : Guarded a)
    (hexpires : e = .timerExpires n .maximum → a.tracker.Waiting →
      a.tracker.timers.minimum.active = false) : Guarded a' := by
  have hfree : ∀ {b : Life}, b.tracker.timers.minimum.active = false → Guarded b :=
    fun hmin harmed => Bool.noConfusion (hmin.symm.trans harmed)
  cases h with
  | stays => exact hguard
  | elapses _ _ => exact fun harmed => hguard ((timer_elapse_active _ _ .minimum).symm.trans harmed)
  | starts _ hneither hstarts =>
      rw [Starts] at hstarts
      split at hstarts
      · obtain ⟨idx, rfl⟩ := hstarts
        exact hfree (hs.unarmed (ne_of_eq_of_ne hneither (by decide)) .minimum)
      · rwa [hstarts]
  | reannounces _ _ =>
      rw [Life.reannounced]
      split
      · exact hguard
      · exact hguard
  | forces _ _ =>
      rw [Life.forced]
      split
      · exact hfree rfl
      · exact hguard
  | shutsDown _ _ =>
      rw [Life.shutDown]
      split
      · exact hguard
      · split
        · exact hfree rfl
        · exact hguard
  | @interrupts which hevent _ _ hwaiting =>
      cases which
      · exact hfree rfl
      · exact hfree (hexpires hevent hwaiting)
  | @announces which _ _ _ _ =>
      cases which
      · exact hfree rfl
      · exact hguard
  | answers _ hprotocol hanswered =>
      rcases hanswered.minimum (hs.unarmed (ne_of_eq_of_ne hprotocol (by decide))) with
        hmin | ⟨hrearmed, htype⟩
      · exact hfree hmin
      · exact fun _ => (hrearmed.two htype).2.1

/-- The time asked for is over, or the minimum timer runs at least so long. -/
def Timed (w : TrackerWorld) (n : ByteString) (a : Life) : Prop :=
  a.place = .space → a.tracker.state = .active → a.tracker.timers.type = .two →
    w.askedUntil n ≤ w.clock ∨
      (a.tracker.timers.minimum.active = true ∧
        w.askedUntil n ≤ w.clock + a.tracker.timers.minimum.after)

theorem askedAfter_of_ne (hne : ∀ body, e ≠ .finished n body) : w.askedAfter e n = w.askedUntil n := by
  cases e with
  | finished name body =>
      cases body with
      | none => rfl
      | some data =>
          have hname : n ≠ name := by
            rintro rfl
            exact hne _ rfl
          rw [askedAfter]
          cases minInterval data with
          | none => rfl
          | some duration => exact if_neg hname
  | signal | timerExpires | elapse | consume => rfl

theorem time_of_ne (hne : ∀ time, e ≠ .elapse time) : e.time = 0 := by
  cases e with
  | elapse time => exact absurd rfl (hne time)
  | signal | timerExpires | finished | consume => rfl

theorem Timed.congr (h : Timed w n a) (hclock : w'.clock = w.clock)
    (hasked : w'.askedUntil n = w.askedUntil n)
    (hsame : a'.place = .space → a'.tracker.state = .active → a'.tracker.timers.type = .two →
      a.place = .space ∧ a.tracker.state = .active ∧ a.tracker.timers.type = .two ∧
        a'.tracker.timers.minimum = a.tracker.timers.minimum) : Timed w' n a' := by
  intro hin hstate htype
  obtain ⟨hin', hstate', htype', hmin⟩ := hsame hin hstate htype
  rw [hclock, hasked, hmin]
  exact h hin' hstate' htype'

/-- **Step lemma.** The clock and the minimum timers keep step. -/
theorem Stepped.timed (hstepped : Stepped w e w') (h : Moves w e n a (some a')) (htimed : Timed w n a) :
    Timed w' n a' := by
  have hasked : (∀ body, e ≠ .finished n body) → w'.askedUntil n = w.askedUntil n := fun hne => by
    rw [hstepped.asked, askedAfter_of_ne hne]
  have hclock : (∀ time, e ≠ .elapse time) → w'.clock = w.clock := fun hne => by
    rw [hstepped.clock, time_of_ne hne, Rat.add_zero]
  have hrunning : ∀ {call}, w.running e = some call →
      w'.clock = w.clock ∧ w'.askedUntil n = w.askedUntil n := by
    intro call hcall
    obtain ⟨htime, hbody, -⟩ := running_signal hcall
    exact ⟨hclock htime, hasked (hbody n)⟩
  cases h with
  | stays htime hbody =>
      exact htimed.congr (hclock htime) (hasked hbody) fun hin hstate htype => ⟨hin, hstate, htype, rfl⟩
  | @elapses time hevent hnonneg =>
      have hlater : w'.clock = w.clock + time := by rw [hstepped.clock, hevent, TrackerEvent.time]
      intro hin hstate htype
      rw [hlater, hasked (fun _ h => by cases hevent.symm.trans h)]
      rcases htimed hin hstate htype with hover | ⟨harmed, hruns⟩
      · refine Or.inl ?_
        calc w.askedUntil n ≤ w.clock := hover
          _ ≤ w.clock + time := le_add_of_nonneg_right hnonneg
      · refine Or.inr ⟨(timer_elapse_active _ _ .minimum).trans harmed, ?_⟩
        calc w.askedUntil n ≤ w.clock + a.tracker.timers.minimum.after := hruns
          _ = w.clock + time + (a.tracker.timers.minimum.after - time) := by ring
          _ = w.clock + time + (a.tracker.timers.minimum.elapse time).after := by rw [elapse_after harmed]
  | starts hcall hneither hstarts =>
      rw [Starts] at hstarts
      split at hstarts
      · obtain ⟨idx, rfl⟩ := hstarts
        exact fun _ hstate => TrackerState.noConfusion hstate
      · rw [hstarts]
        exact fun hin => Place.noConfusion (hneither.symm.trans hin)
  | reannounces hcall _ =>
      rw [Life.reannounced]
      split
      · exact fun hin => Place.noConfusion hin
      · exact htimed.congr (hrunning hcall).1 (hrunning hcall).2
          fun hin hstate htype => ⟨hin, hstate, htype, rfl⟩
  | forces hcall _ =>
      rw [Life.forced]
      split
      · exact fun hin => Place.noConfusion hin
      · exact htimed.congr (hrunning hcall).1 (hrunning hcall).2
          fun hin hstate htype => ⟨hin, hstate, htype, rfl⟩
  | shutsDown _ _ => exact fun hin => absurd hin (shutDown_place a)
  | @interrupts which hevent hin hexpires hwaiting =>
      have hclock' := hclock (fun _ h => by cases hevent.symm.trans h)
      have hasked' := hasked (fun _ h => by cases hevent.symm.trans h)
      cases which with
      | minimum =>
          intro _ hstate _
          rw [hclock', hasked']
          refine Or.inl ?_
          have hdue : a.tracker.timers.minimum.after ≤ 0 := hexpires.2.1
          rcases htimed hin hstate hwaiting.1 with hover | ⟨-, hruns⟩
          · exact hover
          · calc w.askedUntil n ≤ w.clock + a.tracker.timers.minimum.after := hruns
              _ ≤ w.clock := add_le_of_nonpos_right hdue
      | maximum =>
          exact htimed.congr hclock' hasked' fun _ hstate htype => ⟨hin, hstate, htype, rfl⟩
  | announces _ _ _ _ => exact fun hin => Place.noConfusion hin
  | answers hfinished _ hanswered =>
      cases hanswered with
      | withoutPeers => exact fun hin => Place.noConfusion hin
      | reset => exact fun hin => Place.noConfusion hin
      | @returned tracker' _ hrearmed =>
          intro _ _ htype
          obtain ⟨-, -, data, duration, rfl, hasks, harm, -⟩ := hrearmed.two htype
          have huntil : w'.askedUntil n = w.clock + duration.toInt := by
            rw [hstepped.asked, hfinished, askedAfter, hasks]
            exact if_pos rfl
          refine Or.inr ⟨by rw [harm]; rfl, ?_⟩
          rw [huntil, hclock (fun _ h => by cases hfinished.symm.trans h), harm]
          exact le_refl _

/-- What `reannounce_event` relies on, and that it never came too early. -/
structure OnTime (w : TrackerWorld) : Prop where
  consistent : Consistent w
  guarded : ∀ n a, w.life n = some a → Guarded a
  timed : ∀ n a, w.life n = some a → Timed w n a
  elapsed : TrackerCheck.minimumElapsed ∉ w.failedChecks

theorem init_onTime (h : (trackerMachine env).Init w) : OnTime w := by
  obtain ⟨-, huntouched, -, -, hchecks⟩ := init_spec h
  refine ⟨init_consistent h, fun n a hlife => ?_, fun n a hlife hin => ?_, ?_⟩
  · obtain ⟨-, -, htimers⟩ := huntouched n a hlife
    intro hmin
    rw [htimers] at hmin
    cases hmin
  · exact Place.noConfusion ((huntouched n a hlife).1.symm.trans hin)
  · rw [hchecks]
    exact List.not_mem_nil

/-- A guarded tracker that is announced to has no minimum timer. -/
theorem OnTime.careful (h : OnTime w) (hgood : InOrder w e) : Careful w e where
  reannounce _ n _ tracker hfind heligible := by
    by_contra harmed
    rw [Bool.not_eq_false] at harmed
    have hguard := h.guarded n _ (life_of_find hfind)
    exact Bool.noConfusion ((hguard harmed).symm.trans heligible.2.1)
  start := hgood.start

theorem OnTime.not_blames (h : OnTime w) : ¬ Blames w e .minimumElapsed := by
  rintro (⟨-, n, a, -, -, hfails⟩ | ⟨-, -, n, a, hlife, hin, heligible, hearly⟩)
  · rcases hfails with ⟨hcheck, -⟩ | ⟨hcheck, -⟩
    · cases hcheck
    · cases hcheck
  · rcases h.timed n a hlife hin heligible.2.2 heligible.1 with hover | ⟨harmed, -⟩
    · exact hearly hover
    · exact Bool.noConfusion ((h.guarded n a hlife harmed).symm.trans heligible.2.1)

theorem OnTime.step (h : OnTime w) (hgood : InOrder w e) (hstep : w.step env e = some w') : OnTime w' := by
  have hcareful := h.careful hgood
  have hstepped := step_stepped h.consistent hcareful.start hstep
  refine ⟨h.consistent.step hcareful hstep, fun n a' hlife' => ?_, fun n a' hlife' => ?_, fun hfails => ?_⟩
  · obtain ⟨a, hlife, hmoves⟩ := hstepped.came hlife'
    refine hmoves.guarded (h.consistent.sound n a hlife) (h.guarded n a hlife) fun hevent hwaiting => ?_
    obtain ⟨tracker, hfind, htracker, -⟩ := life_eq_some.mp hlife
    have hmin := hgood.expires n hevent tracker hfind ((waiting_congr htracker).mpr hwaiting)
    rw [← htracker]
    exact hmin
  · obtain ⟨a, hlife, hmoves⟩ := hstepped.came hlife'
    exact hstepped.timed hmoves (h.timed n a hlife)
  · rcases hstepped.checks _ hfails with hold | hblames
    · exact h.elapsed hold
    · exact h.not_blames hblames

theorem onTime (h : (trackerMachine env).ReachableBy InOrder w) : OnTime w :=
  h.invariant OnTime (fun _ => init_onTime) fun _ _ _ _ hw hgood hstep => hw.step hgood hstep

/-- **Minimum interval**, in every run in which the minimum timer comes first: an interruptible tracker has
no minimum timer armed, and no plain reannounce comes before the time that the tracker asked for. -/
theorem minimumInterval_kept (h : (trackerMachine env).ReachableBy InOrder w) :
    (∀ n tracker, w.find n = some tracker → tracker.timers.type = .two →
      tracker.context.interruptible = true → tracker.timers.minimum.active = false) ∧
      TrackerCheck.minimumElapsed ∉ w.failedChecks := by
  have hontime := onTime h
  refine ⟨fun n tracker hfind _ hinterruptible => ?_, hontime.elapsed⟩
  by_contra harmed
  rw [Bool.not_eq_false] at harmed
  have hguard := hontime.guarded n _ (life_of_find hfind)
  exact Bool.noConfusion ((hguard harmed).symm.trans hinterruptible)

/-- Both trackers announce, and one after a forced announce asks for its intervals anew. -/
def forcedRun : List TrackerEvent :=
  announceRun ++ handledCall .forceReannounce ++
    [.finished nameT (some intervalBody), .elapse 5] ++ handledCall .reannounce

theorem minimumInterval_kept_forced :
    ((replayed (fun w e => decide (InOrder w e)) forcedRun).space = [nameT] ∧
      (replayed (fun w e => decide (InOrder w e)) forcedRun).clock = 51 / 10) ∧
      (∀ n tracker, (replayed (fun w e => decide (InOrder w e)) forcedRun).find n = some tracker →
        tracker.timers.type = .two → tracker.context.interruptible = true →
          tracker.timers.minimum.active = false) ∧
        TrackerCheck.minimumElapsed ∉ (replayed (fun w e => decide (InOrder w e)) forcedRun).failedChecks :=
  ⟨by decide +kernel, minimumInterval_kept (replayed_reachableBy (fun _ _ => of_decide_eq_true) _)⟩

/-- The end of the interval of ten seconds is taken for the end of the minimum interval of a hundred. -/
theorem interruptible_early : ¬ ∀ w, (trackerMachine plainEnvironment).Reachable w →
    (∀ n tracker, w.find n = some tracker → tracker.timers.type = .two →
      tracker.context.interruptible = true → tracker.timers.minimum.active = false) ∧
      TrackerCheck.minimumElapsed ∉ w.failedChecks := by
  intro h
  have hearly : ∃ tracker ∈ (replayed (fun _ _ => true) interruptRun).find nameT,
      tracker.timers.type = .two ∧ tracker.context.interruptible = true ∧
        tracker.timers.minimum.active = true := by
    decide +kernel
  obtain ⟨tracker, hfind, htype, hinterruptible, harmed⟩ := hearly
  have hmin := (h _ (replayed_reachable interruptRun)).1 nameT tracker hfind htype hinterruptible
  exact Bool.noConfusion (hmin.symm.trans harmed)

/-! ### Responses whose interval is the longer one -/

/-- A response that asks for a minimum interval gives a longer interval. -/
def LongerInterval (body : List Byte) : Prop :=
  ∀ duration, minInterval body = some duration →
    ∃ interval, durationIn "interval" body = some interval ∧ duration < interval

/-- A run whose responses give the longer interval, in which no start is handled while a request is
outstanding. -/
structure Usual (w : TrackerWorld) (e : TrackerEvent) : Prop where
  longer : ∀ name data, e = .finished name (some data) → LongerInterval data
  start : w.running e = some .start → w.requests = []

/-- Where both timers are armed the minimum timer ends first. -/
def Staggered (a : Life) : Prop :=
  a.tracker.timers.type = .two → a.tracker.timers.minimum.active = true →
    a.tracker.timers.maximum.active = true →
      a.tracker.timers.minimum.after < a.tracker.timers.maximum.after

/-- **Step lemma.** Every move keeps the timers staggered, when the responses give the longer interval. -/
theorem Moves.staggered (h : Moves w e n a (some a')) (hs : Sound a) (hstaggered : Staggered a)
    (hlonger : ∀ name data, e = .finished name (some data) → LongerInterval data) : Staggered a' := by
  have hfree : ∀ {b : Life}, b.tracker.timers.minimum.active = false ∨
      b.tracker.timers.maximum.active = false → Staggered b := by
    rintro b (hmin | hmax) _ harmed harmed'
    · exact Bool.noConfusion (hmin.symm.trans harmed)
    · exact Bool.noConfusion (hmax.symm.trans harmed')
  cases h with
  | stays => exact hstaggered
  | @elapses time _ _ =>
      intro htype hmin hmax
      have hmin' : a.tracker.timers.minimum.active = true :=
        (timer_elapse_active time a.tracker .minimum).symm.trans hmin
      have hmax' : a.tracker.timers.maximum.active = true :=
        (timer_elapse_active time a.tracker .maximum).symm.trans hmax
      have hless := hstaggered htype hmin' hmax'
      calc (a.tracker.timers.minimum.elapse time).after
          = a.tracker.timers.minimum.after - time := elapse_after hmin'
        _ < a.tracker.timers.maximum.after - time := sub_lt_sub_right hless time
        _ = (a.tracker.timers.maximum.elapse time).after := (elapse_after hmax').symm
  | starts _ hneither hstarts =>
      rw [Starts] at hstarts
      split at hstarts
      · obtain ⟨idx, rfl⟩ := hstarts
        exact hfree (Or.inl (hs.unarmed (ne_of_eq_of_ne hneither (by decide)) .minimum))
      · rwa [hstarts]
  | reannounces _ _ =>
      rw [Life.reannounced]
      split
      · exact hfree (Or.inr rfl)
      · exact hstaggered
  | forces _ _ =>
      rw [Life.forced]
      split
      · exact hfree (Or.inr rfl)
      · exact hstaggered
  | shutsDown _ _ =>
      rw [Life.shutDown]
      split
      · exact hfree (Or.inr rfl)
      · split
        · exact hfree (Or.inr rfl)
        · exact hfree (Or.inr rfl)
  | @interrupts which _ _ _ _ =>
      cases which
      · exact hfree (Or.inl rfl)
      · exact hfree (Or.inr rfl)
  | @announces which _ _ _ _ =>
      cases which
      · exact hfree (Or.inl rfl)
      · exact hfree (Or.inr rfl)
  | answers hfinished hprotocol hanswered =>
      rcases hanswered.minimum (hs.unarmed (ne_of_eq_of_ne hprotocol (by decide))) with
        hmin | ⟨hrearmed, htype⟩
      · exact hfree (Or.inl hmin)
      · obtain ⟨-, -, data, duration, rfl, hasks, harm, hmax⟩ := hrearmed.two htype
        obtain ⟨interval, hinterval, hless⟩ := hlonger _ _ hfinished duration hasks
        intro _ _ _
        rw [harm, hmax interval hinterval]
        exact Rat.intCast_lt_intCast.mpr (Int64.lt_iff_toInt_lt.mp hless)

theorem staggered_inOrder (hgood : Usual w e) (hstaggered : ∀ n a, w.life n = some a → Staggered a)
    (hstep : w.step env e = some w') : InOrder w e := by
  refine ⟨?_, hgood.start⟩
  rintro name rfl tracker hfind hwaiting
  obtain ⟨tracker', hfind', hrest⟩ := Option.bind_eq_some_iff.mp hstep
  cases (show some tracker = some tracker' from hfind.symm.trans hfind')
  split at hrest
  · rename_i hexpires
    by_contra harmed
    rw [Bool.not_eq_false] at harmed
    obtain ⟨hmax, -, hnext⟩ := hexpires.2
    have hless := hstaggered name _ (life_of_find hfind) hwaiting.1 harmed hmax
    exact absurd (hnext harmed) (not_le.mpr hless)
  · cases hrest

/-- When every response gives the longer interval, the minimum timer comes first. -/
theorem usual_inOrder (h : (trackerMachine env).ReachableBy Usual w) :
    (trackerMachine env).ReachableBy InOrder w ∧ ∀ n a, w.life n = some a → Staggered a := by
  induction h with
  | init hinit =>
      refine ⟨.init hinit, fun n a hlife _ hmin => ?_⟩
      obtain ⟨-, -, htimers⟩ := (init_spec hinit).2.1 n a hlife
      rw [htimers] at hmin
      cases hmin
  | step _ hgood hstep ih =>
      obtain ⟨hrun, hstaggered⟩ := ih
      have hinOrder := staggered_inOrder hgood hstaggered hstep
      refine ⟨.step hrun hinOrder hstep, fun n a' hlife' => ?_⟩
      have hconsistent := (onTime hrun).consistent
      obtain ⟨a, hlife, hmoves⟩ := (step_stepped hconsistent hgood.start hstep).came hlife'
      exact hmoves.staggered (hconsistent.sound n a hlife) (hstaggered n a hlife) hgood.longer

end TrackerWorld

end TorrentEngine
