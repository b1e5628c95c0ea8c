import TorrentEngine.TrackerPlans
import TorrentEngine.TrackerRestart

/-! Runs of the tracker manager with their history: the announces that failed since a tracker was started,
succeeded or was reset, and the timers that `active_state_handler` has armed. The history is read off the
handlers as they run, and changes nothing. -/

open Transition

namespace TorrentEngine

open Bencode Tracker

/-- A failed announce. -/
structure Attempt where
  /-- The url that the request was made with. -/
  url : Option ByteString
  /-- The index with which `get_retry_seconds` read its table, where it did. -/
  read : Option Nat
  /-- The seconds for which the maximum timer was armed. -/
  delay : Int64
  deriving DecidableEq

namespace Tracker

variable {env : TrackerEnvironment} {name : ByteString} {manager manager' : TrackerManager}
  {tracker tracker' : Tracker} {parse : Dictionary}

/-- `get_url`, where the index is within the list. -/
def getUrl (tracker : Tracker) : Option ByteString :=
  tracker.announceUrl.list[tracker.announceUrl.currentIdx]?

/-- The attempt that `inactive_state_handler` brings to its end. -/
def failedAttempt (env : TrackerEnvironment) (url : Option ByteString) (tracker : Tracker) :
    Except Fault Attempt := do
  let (urlCycleExhausted, tracker) ← failAnnounce env tracker
  pure ⟨url, if urlCycleExhausted then retryRead tracker.context.failures else none,
    tracker.timers.maximumDuration⟩

/-- The handler arms the timer as the attempt says. -/
theorem inactiveStateHandler_attempt (url : Option ByteString)
    (h : inactiveStateHandler env name manager tracker = .ok (manager', tracker')) :
    ∃ attempt armed, failedAttempt env url tracker = .ok attempt ∧
      finish name manager armed = (manager', tracker') ∧
        armed.timers.maximum = EvTimer.arm attempt.delay.toInt := by
  rw [inactiveStateHandler] at h
  obtain ⟨⟨exhausted, failed⟩, hfailed, hrest⟩ := Except.bind_eq_ok.mp h
  refine ⟨_, failed, Except.bind_eq_ok.mpr ⟨(exhausted, failed), hfailed, rfl⟩, Except.ok.inj hrest, ?_⟩
  obtain ⟨sought, -, hlast⟩ := Except.bind_eq_ok.mp hfailed
  cases hlast
  rfl

/-- The timers that `active_state_handler` arms. -/
def armings (env : TrackerEnvironment) (discoveries : List PeerContact) (tracker : Tracker)
    (parse : Dictionary) : Except Fault (List (TimerName × Int64)) := do
  let (tracker, queued) ← readResponse env parse discoveries tracker
  pure (if queued.isSome then tracker.timersToArm else [])

theorem timer_armTimers_of_mem {which : TimerName} {duration : Int64}
    (h : (which, duration) ∈ tracker.timersToArm) :
    tracker.armTimers.timer which = EvTimer.arm duration.toInt := by
  rw [armTimers_eq]
  rcases List.mem_cons.mp h with hfirst | hrest
  · cases hfirst
    split
    · rfl
    · rfl
  · split at hrest
    · rename_i htwo
      cases List.mem_singleton.mp hrest
      rw [if_pos htwo]
      rfl
    · cases hrest

theorem timer_armTimers_of_not_mem {which : TimerName}
    (h : ∀ duration, (which, duration) ∉ tracker.timersToArm) :
    tracker.armTimers.timer which = tracker.timer which := by
  cases which with
  | maximum => exact absurd List.mem_cons_self (h _)
  | minimum =>
      have hone : tracker.timers.type ≠ .two := by
        intro htwo
        have hmem := h tracker.timers.minimumDuration
        rw [timersToArm, if_pos htwo] at hmem
        exact hmem (List.mem_cons_of_mem _ List.mem_cons_self)
      rw [armTimers_eq, if_neg hone]
      rfl

/-- The timers armed, by what the handler has read. -/
theorem armings_eq {tracker₁ tracker₂ tracker₃ : Tracker} {discoveries : List PeerContact}
    {queued : Option (List PeerContact × Bool)}
    (hinterval : readInterval parse { tracker with state := .active }.resetFailureStats = .ok tracker₁)
    (hmin : readMinInterval parse tracker₁ = .ok tracker₂)
    (hid : readTrackerId parse tracker₂ = .ok tracker₃)
    (hpush : pushPeers env parse discoveries = .ok queued) :
    armings env discoveries tracker parse = .ok (if queued.isSome then tracker₃.timersToArm else []) := by
  have hread : readResponse env parse discoveries tracker = .ok (tracker₃, queued) :=
    readResponse_eq_ok.mpr ⟨tracker₁, tracker₂, hinterval, hmin, hid, hpush⟩
  exact Except.bind_eq_ok.mpr ⟨_, hread, rfl⟩

/-- The handler arms these timers and no other. It returns early where it arms none. -/
theorem activeStateHandler_armings
    (h : activeStateHandler env name manager tracker parse = .ok (manager', tracker')) :
    ∃ armed after, armings env manager.discoveries tracker parse = .ok armed ∧
      (∀ which duration, (which, duration) ∈ armed → after.timer which = EvTimer.arm duration.toInt) ∧
      (∀ which, (∀ duration, (which, duration) ∉ armed) → after.timer which = tracker.timer which) ∧
      ((armed = [] ∧ tracker' = after) ∨
        ∃ manager₁, finish name manager₁ after = (manager', tracker')) := by
  obtain ⟨tracker₁, tracker₂, tracker₃, queued, hinterval, hmin, hid, hpush, hresult⟩ :=
    activeStateHandler_reads h
  have hread := fieldsRead hinterval hmin hid
  have hkept : ∀ which, tracker₃.timer which = tracker.timer which := fun which =>
    congrFun hread.timer which
  have harmings := armings_eq hinterval hmin hid hpush
  rcases hresult with ⟨hnone, heq⟩ | ⟨discoveries, signalled, hsome, heq⟩
  · rw [hnone] at harmings
    exact ⟨[], tracker₃, harmings, fun _ _ hmem => absurd hmem List.not_mem_nil,
      fun which _ => hkept which, Or.inl ⟨rfl, (Prod.mk.inj heq).2⟩⟩
  · rw [Option.isSome_iff_ne_none.mpr hsome, if_pos rfl] at harmings
    refine ⟨_, tracker₃.armTimers, harmings, fun _ _ hmem => timer_armTimers_of_mem hmem,
      fun which hnot => ?_, Or.inr ⟨_, heq.symm⟩⟩
    exact (timer_armTimers_of_not_mem hnot).trans (hkept which)

end Tracker

/-! ### Histories -/

/-- The manager and what has happened to its trackers. -/
structure TrackerHistory where
  world : TrackerWorld
  /-- The url that the last request of a tracker was made with. -/
  requested : ByteString → Option ByteString
  /-- The failed announces of a tracker since it was started, succeeded or was reset. -/
  attempts : ByteString → List Attempt
  /-- The failed announces in a row that ended last, with the one that found the manager shut down. -/
  row : ByteString → List Attempt
  /-- The timers that `active_state_handler` has armed. -/
  armed : List (TimerName × Int64)

namespace TrackerHistory

def initial (world : TrackerWorld) : TrackerHistory :=
  ⟨world, fun _ => none, fun _ => [], fun _ => [], []⟩

/-- The failed announces in a row, after the end of a request. -/
def rowAfter (env : TrackerEnvironment) (h : TrackerHistory) (name : ByteString)
    (body : Option (List Byte)) : List Attempt :=
  match h.world.find name with
  | none => []
  | some tracker =>
      if TrackerWorld.fails body then
        match failedAttempt env (h.requested name) tracker with
        | .ok attempt => h.attempts name ++ [attempt]
        | .error _ => []
      else []

/-- A manager that is not active resets the tracker. -/
def attemptsAfter (env : TrackerEnvironment) (h : TrackerHistory) (name : ByteString)
    (body : Option (List Byte)) : List Attempt :=
  if h.world.manager.active then h.rowAfter env name body else []

/-- The timers armed at the end of a request. -/
def armedAt (env : TrackerEnvironment) (h : TrackerHistory) (name : ByteString)
    (body : Option (List Byte)) : List (TimerName × Int64) :=
  match h.world.find name, body with
  | some tracker, some data =>
      if TrackerWorld.fails body then []
      else
        match Decode.input data with
        | some (.dictionary parse _) =>
            (armings env h.world.manager.discoveries (TrackerWorld.received tracker data) parse).toOption.getD []
        | _ => []
  | _, _ => []

/-- The history with this event, which leads to this world. -/
def record (env : TrackerEnvironment) (h : TrackerHistory) (e : TrackerEvent) (world : TrackerWorld) :
    TrackerHistory where
  world := world
  requested n :=
    if n ∈ world.requests ∧ n ∉ h.world.requests then (world.find n).bind getUrl else h.requested n
  attempts n :=
    match e with
    | .finished name body => if n = name then h.attemptsAfter env name body else h.attempts n
    | _ => h.attempts n
  row n :=
    match e with
    | .finished name body => if n = name then h.rowAfter env name body else h.row n
    | _ => h.row n
  armed :=
    match e with
    | .finished name body => h.armed ++ h.armedAt env name body
    | _ => h.armed

def step (env : TrackerEnvironment) (h : TrackerHistory) (e : TrackerEvent) : Option TrackerHistory :=
  (h.world.step env e).map (h.record env e)

end TrackerHistory

def historyMachine (env : TrackerEnvironment) : Machine TrackerHistory TrackerEvent where
  Init h := ∃ w, (trackerMachine env).Init w ∧ h = .initial w
  Step h e h' := h.step env e = some h'

namespace TrackerHistory

variable {env : TrackerEnvironment} {h h' : TrackerHistory} {e : TrackerEvent} {w w' : TrackerWorld}

theorem step_record (hstep : h.world.step env e = some w') : h.step env e = some (h.record env e w') :=
  congrArg (Option.map (h.record env e)) hstep

theorem step_eq_some (hstep : h.step env e = some h') :
    ∃ w', h.world.step env e = some w' ∧ h' = h.record env e w' := by
  obtain ⟨w', hw', heq⟩ := Option.map_eq_some_iff.mp hstep
  exact ⟨w', hw', heq.symm⟩

end TrackerHistory

end TorrentEngine
