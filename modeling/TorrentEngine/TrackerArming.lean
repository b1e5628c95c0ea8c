import TorrentEngine.TrackerBackoff

/-! The durations of the timers. `active_state_handler` puts a default in the place of an interval that is
not positive, but only where the response has one. Without it the timer is armed for what the tracker held
before: the interval of an earlier response, a retry delay, or nothing. -/

open Transition

namespace TorrentEngine

open Bencode Tracker

namespace Tracker

variable {env : TrackerEnvironment} {tracker tracker' : Tracker} {parse : Dictionary}

/-- The interval that a tracker holds after a response. -/
theorem readInterval_duration (h : readInterval parse tracker = .ok tracker') :
    0 < tracker'.timers.maximumDuration ↔
      (find "interval" parse).isSome ∨ 0 < tracker.timers.maximumDuration := by
  rcases readField_eq_ok h with ⟨hnone, rfl⟩ | ⟨found, value, hfound, -, rfl⟩
  · rw [hnone]
    simp
  · rw [hfound, setMaximumDuration]
    dsimp only
    split
    · simp
    · rename_i hpositive
      simp only [Option.isSome_some, true_or, iff_true]
      exact Int64.not_le.mp hpositive

/-- The timers that a tracker arms are armed for a positive time as soon as the maximum timer is, if the
minimum timer was given a positive one. -/
theorem timersToArm_positive_iff
    (htwo : tracker.timers.type = .two → 0 < tracker.timers.minimumDuration) :
    (∀ arming ∈ tracker.timersToArm, 0 < arming.2) ↔ 0 < tracker.timers.maximumDuration := by
  constructor
  · intro hall
    exact hall (.maximum, _) List.mem_cons_self
  · intro hmaximum arming hmem
    rcases List.mem_cons.mp hmem with hfirst | hrest
    · rw [hfirst]
      exact hmaximum
    · split at hrest
      · rename_i htype
        rw [List.mem_singleton.mp hrest]
        exact htwo htype
      · cases hrest

/-- **The timers that are armed** are armed for a positive time exactly if the response has an interval or
the tracker holds a positive one. -/
theorem armings_positive_iff {discoveries : List PeerContact} {armed : List (TimerName × Int64)}
    (h : armings env discoveries tracker parse = .ok armed) :
    (∀ arming ∈ armed, 0 < arming.2) ↔
      (UsablePeers parse → (find "interval" parse).isSome ∨ 0 < tracker.timers.maximumDuration) := by
  obtain ⟨⟨tracker₃, queued⟩, hresponse, hrest⟩ := Except.bind_eq_ok.mp h
  obtain ⟨tracker₁, tracker₂, hinterval, hmin, hid, hpush⟩ := readResponse_eq_ok.mp hresponse
  have husable := pushPeers_none_iff hpush
  have hread := fieldsRead hinterval hmin hid
  have hduration := readInterval_duration hinterval
  have hkept : tracker₃.timers.maximumDuration = tracker₁.timers.maximumDuration := by
    calc
      _ = tracker₂.timers.maximumDuration :=
        readField_keeps (·.timers.maximumDuration) hid fun _ _ => rfl
      _ = _ := readField_keeps (·.timers.maximumDuration) hmin fun _ _ => rfl
  cases queued with
  | none =>
      cases hrest
      have hnone := husable.mp rfl
      exact iff_of_true (fun _ hmem => absurd hmem List.not_mem_nil) fun hpeers => absurd hpeers hnone
  | some queued =>
      cases hrest
      have hpeers : UsablePeers parse := by
        by_contra hnot
        exact absurd (husable.mpr hnot) (Option.some_ne_none _)
      rw [Option.isSome_some, if_pos rfl, timersToArm_positive_iff fun htwo => (hread.two htwo).1, hkept, hduration]
      constructor
      · intro hpositive _
        exact hpositive
      · intro hpositive
        exact hpositive hpeers

end Tracker

namespace TrackerHistory

variable {env : TrackerEnvironment} {h h' : TrackerHistory} {e : TrackerEvent} {w' : TrackerWorld}
  {name : ByteString} {tracker : Tracker} {body : Option (List Byte)} {manager' : TrackerManager}

/-- Where a successful response with peers has no interval, the tracker holds a positive one. -/
def HoldsInterval (h : TrackerHistory) (e : TrackerEvent) : Prop :=
  ∀ name data, e = .finished name (some data) → ∀ tracker, h.world.find name = some tracker →
    ∀ parse p, Decode.input data = some (.dictionary parse p) →
      TrackerWorld.fails (some data) = false → UsablePeers parse →
        (find "interval" parse).isSome ∨ 0 < tracker.timers.maximumDuration

theorem holdsInterval_of_fails (hfails : TrackerWorld.fails body = true) :
    HoldsInterval h (.finished name body) := by
  intro n data heq tracker hfind parse p hinput hsuccess
  cases heq
  rw [hfails] at hsuccess
  cases hsuccess

theorem armedAt_of_fails (hfails : TrackerWorld.fails body = true) : h.armedAt env name body = [] := by
  unfold armedAt
  split
  · rw [if_pos hfails]
  · rfl

theorem armedAt_of_success {data : List Byte} {parse : Dictionary} {p : SourceStats}
    {armed : List (TimerName × Int64)} (hfind : h.world.find name = some tracker)
    (hfails : TrackerWorld.fails (some data) = false) (hinput : Decode.input data = some (.dictionary parse p))
    (harmed : armings env h.world.manager.discoveries (TrackerWorld.received tracker data) parse =
      .ok armed) : h.armedAt env name (some data) = armed := by
  unfold armedAt
  rw [hfind]
  dsimp only
  rw [hfails, if_neg Bool.false_ne_true, hinput]
  dsimp only
  rw [harmed]
  rfl

theorem armedAt_of_undecoded {data : List Byte} (hinput : Decode.input data = none) :
    h.armedAt env name (some data) = [] := by
  unfold armedAt
  cases h.world.find name with
  | none => rfl
  | some tracker =>
      dsimp only
      rw [hinput, ite_self]

theorem armedAt_positive_iff (hfind : h.world.find name = some tracker)
    (hended : TrackerWorld.Ended env h.world.manager name body tracker manager') :
    (∀ arming ∈ h.armedAt env name body, 0 < arming.2) ↔ HoldsInterval h (.finished name body) := by
  cases hended with
  | erased hdata =>
      obtain ⟨data, rfl, hinput⟩ := hdata
      rw [armedAt_of_undecoded hinput]
      refine iff_of_true (fun _ hmem => absurd hmem List.not_mem_nil) fun n data' heq _ _ parse p hparse => ?_
      cases heq
      rw [hinput] at hparse
      cases hparse
  | failed hfails _ _ =>
      rw [armedAt_of_fails hfails]
      exact iff_of_true (fun _ hmem => absurd hmem List.not_mem_nil) (holdsInterval_of_fails hfails)
  | @succeeded after manager₁ data parse p hfails hbody hinput hhandler =>
      subst hbody
      obtain ⟨armed, -, harmed, -⟩ := activeStateHandler_armings hhandler
      have hat := armedAt_of_success hfind hfails hinput harmed
      rw [hat, armings_positive_iff harmed]
      constructor
      · intro hpositive n data' heq tracker' hfind' parse' p' hinput' _ hpeers
        cases heq
        cases hfind.symm.trans hfind'
        cases hinput.symm.trans hinput'
        exact hpositive hpeers
      · intro hholds hpeers
        exact hholds name data rfl tracker hfind parse p hinput hfails hpeers

/-- **Step lemma.** What a step adds to the armed timers is positive exactly if it meets the condition. -/
theorem step_armed (hreach : (historyMachine env).Reachable h) (hstep : h.step env e = some h') :
    (∀ arming ∈ h'.armed, 0 < arming.2) ↔ (∀ arming ∈ h.armed, 0 < arming.2) ∧ HoldsInterval h e := by
  obtain ⟨w', hw', rfl⟩ := step_eq_some hstep
  have hquiet : (∀ name body, e ≠ .finished name body) →
      ((∀ arming ∈ (h.record env e w').armed, 0 < arming.2) ↔
        (∀ arming ∈ h.armed, 0 < arming.2) ∧ HoldsInterval h e) := by
    intro hne
    have harmed : (h.record env e w').armed = h.armed := by
      cases e with
      | finished name body => exact absurd rfl (hne name body)
      | signal | timerExpires | elapse | consume => rfl
    rw [harmed]
    exact (and_iff_left fun name data heq => absurd heq (hne name (some data))).symm
  cases TrackerWorld.step_replans (rotating hreach).keys hw' with
  | keeps hne _ => exact hquiet hne
  | starts hne _ => exact hquiet hne
  | @ends name body tracker manager' _ hfind _ hended _ _ =>
      have harmed : (h.record env (.finished name body) w').armed = h.armed ++ h.armedAt env name body := rfl
      rw [harmed, ← armedAt_positive_iff hfind hended, List.forall_mem_append]

/-- **No announce storm**: the timers that `active_state_handler` has armed in a run were all armed for a
positive time exactly if all steps of the run met the condition. -/
theorem armed_positive_iff (hreach : (historyMachine env).Reachable h) :
    (∀ arming ∈ h.armed, 0 < arming.2) ↔ (historyMachine env).ReachableBy HoldsInterval h := by
  constructor
  · intro hpositive
    induction hreach with
    | init hinit => exact .init hinit
    | step hbefore _ hstep ih =>
        obtain ⟨hold, hholds⟩ := (step_armed hbefore.reachable hstep).mp hpositive
        exact .step (ih hold) hholds hstep
  · intro hgood
    refine hgood.invariant (fun h => ∀ arming ∈ h.armed, 0 < arming.2) (fun h hinit => ?_)
      fun h e h' hbefore hpositive hholds hstep => ?_
    · obtain ⟨w, -, rfl⟩ := hinit
      exact fun arming hmem => absurd hmem List.not_mem_nil
    · exact (step_armed hbefore hstep).mpr ⟨hpositive, hholds⟩

/-- The first announce of the tracker, with this response. -/
def firstResponse (body : List Byte) : List TrackerEvent :=
  TrackerWorld.handledCall .start ++
    [.elapse (1 / 10), .timerExpires TrackerWorld.nameT .maximum, .finished TrackerWorld.nameT (some body)]

theorem armed_positive_iff_interval :
    (mixedHistory (firstResponse TrackerWorld.intervalBody)).armed = [(.maximum, 10), (.minimum, 100)] ∧
      ((∀ arming ∈ (mixedHistory (firstResponse TrackerWorld.intervalBody)).armed, 0 < arming.2) ↔
        (historyMachine plainEnvironment).ReachableBy HoldsInterval
          (mixedHistory (firstResponse TrackerWorld.intervalBody))) :=
  ⟨by decide +kernel, armed_positive_iff (mixedHistory_reachable _)⟩

/-- A response with one peer and nothing else. -/
def peersBody : List Byte := "d5:peers6:abcdefe".toList.map ascii

/-- The timer of the next announce is armed for no time at all. -/
theorem armed_zero : ¬ ∀ h, (historyMachine plainEnvironment).Reachable h →
    ∀ arming ∈ h.armed, 0 < arming.2 := by
  intro hclaim
  have harmed : (mixedHistory (firstResponse peersBody)).armed = [(.maximum, 0)] := by decide +kernel
  have hpositive := hclaim _ (mixedHistory_reachable (firstResponse peersBody)) (.maximum, 0) (by
    rw [harmed]
    exact List.mem_singleton.mpr rfl)
  exact absurd hpositive (by decide)

end TrackerHistory

end TorrentEngine
