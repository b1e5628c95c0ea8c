import TorrentEngine.TrackerSpace

/-! A start after a shutdown. `start_event` asserts that every tracker it adds was reset, and trackers are
reset along different routes: when the request that a shutdown leaves them with is done, or never. A
shutdown resets no inactive tracker, and a response without usable peers leaves a tracker where neither
event finds it. -/

open Transition

namespace TorrentEngine

open Bencode Tracker

instance (parse : Dictionary) : Decidable (UsablePeers parse) :=
  match hpeers : find "peers" parse with
  | none => .isFalse fun ⟨_, hsome, _⟩ => Option.noConfusion rfl (heq_of_eq (hpeers.symm.trans hsome))
  | some (.string s p) =>
      decidable_of_iff (s.bytes ≠ [] ∧ s.size % peer4UnitLength = 0)
        ⟨fun h => ⟨_, hpeers, fun s' p' heq => by cases heq; exact h⟩, fun ⟨_, hsome, h⟩ =>
          h s p (Option.some.inj (hsome.symm.trans hpeers))⟩
  | some (.integer value p) => .isTrue ⟨_, hpeers, nofun⟩
  | some (.list value p) => .isTrue ⟨_, hpeers, nofun⟩
  | some (.dictionary value p) => .isTrue ⟨_, hpeers, nofun⟩

instance (body : List Byte) : Decidable (WithoutPeers body) :=
  match hinput : Decode.input body with
  | some (.dictionary parse p) =>
      decidable_of_iff (contains "failure reason" parse = false ∧ ¬ UsablePeers parse)
        ⟨fun h => ⟨parse, p, hinput, h⟩, fun ⟨_, _, hsome, h⟩ => by
          cases hinput.symm.trans hsome
          exact h⟩
  | none => .isFalse fun ⟨_, _, hsome, _⟩ => by cases hinput.symm.trans hsome
  | some (.integer _ _) => .isFalse fun ⟨_, _, hsome, _⟩ => by cases hinput.symm.trans hsome
  | some (.string _ _) => .isFalse fun ⟨_, _, hsome, _⟩ => by cases hinput.symm.trans hsome
  | some (.list _ _) => .isFalse fun ⟨_, _, hsome, _⟩ => by cases hinput.symm.trans hsome

namespace TrackerWorld

variable {env : TrackerEnvironment} {w w' : TrackerWorld} {e : TrackerEvent} {name n : ByteString}
  {a a' : Life}

/-- A run that is careful, in which no shutdown meets an inactive tracker and no response comes without
usable peers. -/
structure Restartable (w : TrackerWorld) (e : TrackerEvent) : Prop extends Careful w e where
  shutdown : w.running e = some .shutdown → ∀ n ∈ w.space, ∀ tracker ∈ w.find n,
    tracker.state ≠ .inactive
  peers : ∀ name data, e = .finished name (some data) → ¬ WithoutPeers data

/-- The test of the last condition, by the event. -/
def peersUsable : TrackerEvent → Bool
  | .finished _ (some data) => !decide (WithoutPeers data)
  | _ => true

instance (w : TrackerWorld) (e : TrackerEvent) : Decidable (Restartable w e) :=
  decidable_of_iff (Careful w e ∧
    (w.running e = some .shutdown → ∀ n ∈ w.space, ∀ tracker ∈ w.find n, tracker.state ≠ .inactive) ∧
      peersUsable e = true) (by
    constructor
    · rintro ⟨hcareful, hshutdown, husable⟩
      refine ⟨hcareful, hshutdown, ?_⟩
      rintro name data rfl
      rw [peersUsable, Bool.not_eq_true', decide_eq_false_iff_not] at husable
      exact husable
    · intro h
      refine ⟨h.toCareful, h.shutdown, ?_⟩
      cases e with
      | finished name body =>
          cases body with
          | none => rfl
          | some data =>
              rw [peersUsable, Bool.not_eq_true', decide_eq_false_iff_not]
              exact h.peers name data rfl
      | signal | timerExpires | elapse | consume => rfl)

/-- A tracker in neither place has been reset. -/
def Home (a : Life) : Prop :=
  a.place = .neither → a.tracker.state = .null ∧ a.tracker.timers.type = .one

/-- **Step lemma.** Whatever leaves both places is reset. -/
theorem Moves.home (h : Moves w e n a (some a')) (hhome : Home a)
    (hshutdown : w.running e = some .shutdown → a.place = .space → a.tracker.state ≠ .inactive)
    (hpeers : ∀ name data, e = .finished name (some data) → ¬ WithoutPeers data) : Home a' := by
  have hspace : ∀ tracker, Home ⟨tracker, .space⟩ := fun _ h => Place.noConfusion h
  have hprotocol : ∀ tracker, Home ⟨tracker, .protocol⟩ := fun _ h => Place.noConfusion h
  cases h with
  | stays => exact hhome
  | elapses _ _ => exact hhome
  | starts _ _ hstarts =>
      rw [Starts] at hstarts
      split at hstarts
      · obtain ⟨idx, rfl⟩ := hstarts
        exact hspace _
      · rwa [hstarts]
  | reannounces _ _ =>
      rw [Life.reannounced]
      split
      · exact hprotocol _
      · exact hhome
  | forces _ _ =>
      rw [Life.forced]
      split
      · exact hprotocol _
      · exact hhome
  | shutsDown hrunning hin =>
      rw [Life.shutDown, if_neg (hshutdown hrunning hin)]
      split
      · exact hprotocol _
      · exact hprotocol _
  | interrupts _ _ _ _ => exact hspace _
  | announces _ _ _ _ => exact hprotocol _
  | answers hfinished _ hanswered =>
      cases hanswered with
      | withoutPeers hbody hwithout _ =>
          rw [hbody] at hfinished
          exact absurd hwithout (hpeers _ _ hfinished)
      | returned _ _ => exact hspace _
      | reset _ hstate htype _ => exact fun _ => ⟨hstate, htype⟩

/-- What a start relies on, and that it was never disappointed. -/
structure AllHome (w : TrackerWorld) : Prop where
  consistent : Consistent w
  home : ∀ n a, w.life n = some a → Home a
  state : TrackerCheck.startState ∉ w.failedChecks
  timers : TrackerCheck.startTimers ∉ w.failedChecks
  outstanding : TrackerCheck.startOutstanding ∉ w.failedChecks

theorem init_allHome (h : (trackerMachine env).Init w) : AllHome w := by
  obtain ⟨-, huntouched, -, -, hchecks⟩ := init_spec h
  refine ⟨init_consistent h, fun n a hlife _ => ?_, ?_, ?_, ?_⟩
  · obtain ⟨-, hstate, htimers⟩ := huntouched n a hlife
    exact ⟨hstate, by rw [htimers]⟩
  · rw [hchecks]
    exact List.not_mem_nil
  · rw [hchecks]
    exact List.not_mem_nil
  · rw [hchecks]
    exact List.not_mem_nil

/-- A start adds trackers that were reset, so that only the minimum interval can be blamed. -/
theorem AllHome.blames (h : AllHome w) (hcareful : Careful w e) {c : TrackerCheck}
    (hblames : Blames w e c) : c = .minimumElapsed := by
  rcases hblames with ⟨hrunning, n, a, hlife, -, hfails⟩ | ⟨-, hcheck, -⟩
  · obtain ⟨tracker, -, -, hplace⟩ := life_eq_some.mp hlife
    have hneither : a.place = .neither := by
      rw [← hplace, place_eq_neither, h.consistent.rests (running_start hrunning),
        hcareful.start hrunning]
      exact ⟨List.not_mem_nil, List.not_mem_nil⟩
    obtain ⟨hstate, htype⟩ := h.home n a hlife hneither
    rcases hfails with ⟨-, hne⟩ | ⟨-, hne⟩
    · exact absurd hstate hne
    · exact absurd htype hne
  · exact hcheck

theorem AllHome.step (h : AllHome w) (hgood : Restartable w e) (hstep : w.step env e = some w') :
    AllHome w' := by
  have hstepped := step_stepped h.consistent hgood.start hstep
  have hchecks : ∀ c, c ≠ .minimumElapsed → c ∉ w.failedChecks → c ∉ w'.failedChecks := by
    intro c hne hold hnew
    rcases hstepped.checks c hnew with hmem | hblames
    · exact hold hmem
    · exact hne (h.blames hgood.toCareful hblames)
  refine ⟨h.consistent.step hgood.toCareful hstep, fun n a' hlife' => ?_, hchecks _ (by decide) h.state,
    hchecks _ (by decide) h.timers, hchecks _ (by decide) h.outstanding⟩
  obtain ⟨a, hlife, hmoves⟩ := hstepped.came hlife'
  refine hmoves.home (h.home n a hlife) (fun hrunning hin => ?_) hgood.peers
  obtain ⟨tracker, hfind, htracker, -⟩ := life_eq_some.mp hlife
  rw [← state_congr htracker]
  exact hgood.shutdown hrunning n ((mem_space_iff hlife).mpr hin) tracker hfind

/-- **Restart**, in every run that allows it: a start finds each tracker it adds in state null with one
timer and no request outstanding, and none gets into the manager space twice. -/
theorem restart_asserts (h : (trackerMachine env).ReachableBy Restartable w) :
    TrackerCheck.startState ∉ w.failedChecks ∧ TrackerCheck.startTimers ∉ w.failedChecks ∧
      TrackerCheck.startOutstanding ∉ w.failedChecks ∧ w.space.Nodup := by
  have hhome : AllHome w := h.invariant AllHome (fun _ => init_allHome)
    fun _ _ _ _ hw hgood hstep => hw.step hgood hstep
  exact ⟨hhome.state, hhome.timers, hhome.outstanding, hhome.consistent.placed.nodup⟩

/-- Both trackers announce, are shut down and started again. -/
def restartRun : List TrackerEvent :=
  announceRun ++ handledCall .shutdown ++
    [.finished nameT (some intervalBody), .finished nameU (some intervalBody)] ++ handledCall .start

theorem restart_asserts_twice :
    (replayed (fun w e => decide (Restartable w e)) restartRun).space = [nameT, nameU] ∧
      TrackerCheck.startState ∉ (replayed (fun w e => decide (Restartable w e)) restartRun).failedChecks ∧
      TrackerCheck.startTimers ∉ (replayed (fun w e => decide (Restartable w e)) restartRun).failedChecks ∧
      TrackerCheck.startOutstanding ∉
        (replayed (fun w e => decide (Restartable w e)) restartRun).failedChecks ∧
      (replayed (fun w e => decide (Restartable w e)) restartRun).space.Nodup :=
  ⟨by decide +kernel, restart_asserts (replayed_reachableBy (fun _ _ => of_decide_eq_true) _)⟩

/-- A shutdown within the first tenth of a second, and a start. -/
def hastyRun : List TrackerEvent :=
  handledCall .start ++ handledCall .shutdown ++ handledCall .start

/-- The trackers are still inactive when they are added again. -/
theorem restart_assertion_fails : ¬ ∀ w, (trackerMachine plainEnvironment).Reachable w →
    TrackerCheck.startState ∉ w.failedChecks ∧ TrackerCheck.startTimers ∉ w.failedChecks ∧
      TrackerCheck.startOutstanding ∉ w.failedChecks ∧ w.space.Nodup := by
  intro h
  have hfails : TrackerCheck.startState ∈ (replayed (fun _ _ => true) hastyRun).failedChecks := by
    decide +kernel
  exact (h _ (replayed_reachable hastyRun)).1 hfails

end TrackerWorld

end TorrentEngine
