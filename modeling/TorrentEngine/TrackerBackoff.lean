import TorrentEngine.TrackerAttempts

/-! The urls that are tried and the delays between, in every history. The count of failures is the number
of whole rounds through the http urls; the retry table is read with that count, and no modulus brings it
back into the table. -/

open Transition

namespace TorrentEngine

open Bencode Tracker AnnouncePlan

namespace TrackerHistory

variable {env : TrackerEnvironment} {h h' : TrackerHistory} {e : TrackerEvent} {w w' : TrackerWorld}
  {name n : ByteString} {tracker tracker' : Tracker} {body : Option (List Byte)}

/-! ### Runs of failures of any length -/

/-- The only tracker waits in the manager space for its maximum timer. -/
structure Waits (h : TrackerHistory) (name : ByteString) (tracker : Tracker) : Prop where
  idle : h.world.events.invocation = .idle
  active : h.world.manager.active = true
  connections : h.world.manager.trackerConnections = [(name, tracker)]
  space : h.world.manager.managerSpace = [name]
  requests : h.world.requests = []
  proto : tracker.currentProto = .http
  type : tracker.timers.type = .one
  index : tracker.context.managerSpaceIdx = 0
  minimum : tracker.timers.minimum.active = false
  maximum : tracker.timers.maximum.active = true
  after : 0 ≤ tracker.timers.maximum.after

namespace Waits

theorem find_sole (hconnections : w.manager.trackerConnections = [(name, tracker)]) :
    w.find name = some tracker := by
  rw [TrackerWorld.find, TrackerManager.find, hconnections, List.lookup_cons_self]

theorem store_sole {manager : TrackerManager} (hsole : manager.trackerConnections = [(name, tracker)])
    (tracker' : Tracker) :
    manager.store name tracker' = { manager with trackerConnections := [(name, tracker')] } := by
  rw [TrackerManager.store, hsole, List.map_singleton, if_pos rfl]

theorem managerChange_sole {manager : TrackerManager}
    (hsole : manager.trackerConnections = [(name, tracker)]) (f : Tracker → Tracker) :
    manager.change name f = { manager with trackerConnections := [(name, f tracker)] } := by
  have hfind : manager.find name = some tracker := by
    rw [TrackerManager.find, hsole, List.lookup_cons_self]
  rw [TrackerManager.change, hfind]
  exact store_sole hsole (f tracker)

theorem change_sole (hconnections : w.manager.trackerConnections = [(name, tracker)])
    (f : Tracker → Tracker) :
    w.change name f = { w with manager := { w.manager with trackerConnections := [(name, f tracker)] } } := by
  rw [TrackerWorld.change, managerChange_sole hconnections]

/-- The only tracker is handed over. -/
theorem handOver_sole (hconnections : w.manager.trackerConnections = [(name, tracker)])
    (hspace : w.manager.managerSpace = [name]) (hrequests : w.requests = [])
    (hproto : tracker.currentProto = .http) :
    (w.sendToProtocolSpace name).addRequest name = { w with
      manager := { w.manager with
        trackerConnections := [(name, setManagerSpaceIdx tracker.context.managerSpaceIdx tracker)]
        managerSpace := SwapRemoval.removeAt [name] tracker.context.managerSpaceIdx }
      requests := [name] } := by
  have hfind : w.find name = some tracker := find_sole hconnections
  have hlast : w.space.getLast? = some name := by rw [TrackerWorld.space, hspace, List.getLast?_singleton]
  have hcheck : w.check .handOver (name ∈ w.space ∧ name ∉ w.requests) = w := by
    rw [TrackerWorld.check, if_pos]
    rw [TrackerWorld.space, hspace, hrequests]
    exact ⟨List.mem_singleton.mpr rfl, List.not_mem_nil⟩
  have hsend : w.sendToProtocolSpace name = { w with
      manager := { w.manager with
        trackerConnections := [(name, setManagerSpaceIdx tracker.context.managerSpaceIdx tracker)]
        managerSpace := SwapRemoval.removeAt [name] tracker.context.managerSpaceIdx } } := by
    rw [TrackerWorld.sendToProtocolSpace, hcheck]
    dsimp only
    rw [hlast, hfind]
    dsimp only
    rw [change_sole hconnections, TrackerWorld.space, hspace]
  have hafter : (w.sendToProtocolSpace name).find name =
      some (setManagerSpaceIdx tracker.context.managerSpaceIdx tracker) := by
    rw [hsend]
    exact find_sole rfl
  rw [TrackerWorld.addRequest, hafter]
  dsimp only
  rw [hsend]
  dsimp only
  rw [if_pos, hrequests, List.nil_append]
  rw [hrequests]
  exact ⟨hproto, List.not_mem_nil⟩

/-- The handler of the maximum timer hands the only tracker over. -/
theorem timeout_sole (hconnections : w.manager.trackerConnections = [(name, tracker)])
    (hspace : w.manager.managerSpace = [name]) (hrequests : w.requests = [])
    (hproto : tracker.currentProto = .http) (htype : tracker.timers.type = .one)
    (hindex : tracker.context.managerSpaceIdx = 0) :
    w.trackerTimeoutHandler name .maximum = { w with
      manager := { w.manager with
        trackerConnections := [(name, setManagerSpaceIdx 0 (disarm .maximum tracker))]
        managerSpace := [] }
      requests := [name] } := by
  have hone : ¬ (disarm .maximum tracker).Waiting := by
    intro hwaiting
    have htwo : tracker.timers.type = .two := hwaiting.1
    rw [htype] at htwo
    cases htwo
  have hdisarmed : (disarm .maximum tracker).context.managerSpaceIdx = 0 := hindex
  have hhand := @handOver_sole { w with manager := { w.manager with
    trackerConnections := [(name, disarm .maximum tracker)] } } name _ rfl hspace hrequests hproto
  rw [hdisarmed] at hhand
  rw [TrackerWorld.trackerTimeoutHandler, change_sole hconnections, find_sole rfl]
  dsimp only
  rw [if_neg hone, hhand]
  rfl

/-- After its time the maximum timer is the one to expire. -/
theorem ready (hw : Waits h name tracker) :
    TrackerWorld.Expires (tracker.elapse tracker.timers.maximum.after) .maximum := by
  have hactive := TrackerWorld.timer_elapse_active tracker.timers.maximum.after tracker
  refine ⟨(hactive .maximum).trans hw.maximum, ?_, fun hother => ?_⟩
  · apply (TrackerWorld.elapse_after hw.maximum).trans_le
    rw [sub_self]
  · have hminimum : true = false := hother.symm.trans ((hactive .minimum).trans hw.minimum)
    cases hminimum

/-- The maximum timer expires after its time, and the tracker is with the HTTP handler. -/
theorem expires (hw : Waits h name tracker) : ∃ w₁ w₂ tracker₂,
    h.world.step env (.elapse tracker.timers.maximum.after) = some w₁ ∧
    w₁.step env (.timerExpires name .maximum) = some w₂ ∧
    w₂.events.invocation = .idle ∧ w₂.manager.active = true ∧
    w₂.manager.trackerConnections = [(name, tracker₂)] ∧ w₂.manager.managerSpace = [] ∧
    w₂.requests = [name] ∧ tracker₂.plan = tracker.plan ∧ tracker₂.timers.minimum.active = false := by
  have hready := hw.ready
  have hplan : (tracker.elapse tracker.timers.maximum.after).plan = tracker.plan := rfl
  have hminimum := (TrackerWorld.timer_elapse_active tracker.timers.maximum.after tracker .minimum).trans
    hw.minimum
  have htype : (tracker.elapse tracker.timers.maximum.after).timers.type = .one := hw.type
  have hindex : (tracker.elapse tracker.timers.maximum.after).context.managerSpaceIdx = 0 := hw.index
  generalize htracker₁ : tracker.elapse tracker.timers.maximum.after = tracker₁ at *
  let w₁ : TrackerWorld := { h.world with
    manager := { h.world.manager with trackerConnections := [(name, tracker₁)] }
    clock := h.world.clock + tracker.timers.maximum.after }
  have helapse : h.world.step env (.elapse tracker.timers.maximum.after) = some w₁ := by
    rw [TrackerWorld.step, if_pos ⟨hw.idle, hw.after⟩, hw.connections, List.map_singleton, htracker₁]
  have htimeout := @timeout_sole w₁ name tracker₁ rfl hw.space hw.requests
    ((proto_congr hplan).trans hw.proto) htype hindex
  have hstep : w₁.step env (.timerExpires name .maximum) =
      some (w₁.trackerTimeoutHandler name .maximum) := by
    rw [TrackerWorld.step, find_sole rfl]
    dsimp only [Option.bind_eq_bind, Option.bind_some]
    rw [if_pos ⟨hw.idle, hready⟩]
  rw [htimeout] at hstep
  exact ⟨w₁, _, setManagerSpaceIdx 0 (disarm .maximum tracker₁), helapse, hstep, hw.idle, hw.active, rfl,
    rfl, rfl, hplan, hminimum⟩

theorem retryDelay_nonneg (henv : ∀ index, 0 ≤ env.beyondRetryIntervals index) (failures : Nat) :
    0 ≤ (retryDelay env failures).toInt := by
  rw [retryDelay]
  split
  · decide
  · rename_i index _
    cases hread : retryIntervals[index]? with
    | none => exact Int64.le_iff_toInt_le.mp (henv index)
    | some delay =>
        have hall : ∀ d ∈ retryIntervals, 0 ≤ d.toInt := List.all_iff_forall_prop.mp rfl
        exact hall delay (List.mem_of_getElem? hread)

/-- The timer of a failed announce is armed for a delay that is not negative. -/
theorem failedTo_after (henv : ∀ index, 0 ≤ env.beyondRetryIntervals index) (tracker : Tracker) (idx : Nat) :
    0 ≤ (tracker.failedTo env idx).timers.maximum.after := by
  have hafter : (tracker.failedTo env idx).timers.maximum.after =
      ((if tracker.failedFirst = idx then
        retryDelay env (if tracker.failedFirst = idx then SizeT.inc tracker.context.failures
          else tracker.context.failures) else retryForNewUrl).toInt : Rat) := rfl
  rw [hafter]
  apply Int.cast_nonneg
  split
  · exact retryDelay_nonneg henv _
  · decide

/-- The announce of the only tracker fails, and its tracker comes back to the manager space. -/
theorem finished_sole {manager₁ : TrackerManager} {after : Tracker}
    (hidle : w.events.invocation = .idle)
    (hconnections : w.manager.trackerConnections = [(name, tracker)]) (hrequests : w.requests = [name])
    (hrespond : w.respond env name tracker none = .ok (manager₁.store name after))
    (hstored : manager₁.trackerConnections = [(name, tracker)]) :
    w.step env (.finished name none) = some { w with
      manager := { manager₁ with trackerConnections := [(name, clearData after)] }
      requests := []
      askedUntil := w.askedAfter (.finished name none) } := by
  have hmem : name ∈ w.requests := by
    rw [hrequests]
    exact List.mem_singleton.mpr rfl
  have hnone : w.requests.filter (fun n => decide (n ≠ name)) = [] := by
    rw [hrequests]
    simp
  have hmanager : (manager₁.store name after).change name clearData =
      { manager₁ with trackerConnections := [(name, clearData after)] } := by
    rw [store_sole hstored after]
    exact managerChange_sole rfl clearData
  rw [TrackerWorld.step, find_sole hconnections]
  dsimp only [Option.bind_eq_bind, Option.bind_some]
  rw [if_pos ⟨hidle, hmem⟩, hrespond, hnone, ← hmanager]
  rfl

/-- The only tracker, with the HTTP handler, fails and waits again. -/
theorem fails_again (henv : ∀ index, 0 ≤ env.beyondRetryIntervals index) (hr : Rotating env h)
    (hidle : h.world.events.invocation = .idle) (hactive : h.world.manager.active = true)
    (hconnections : h.world.manager.trackerConnections = [(name, tracker)])
    (hspace : h.world.manager.managerSpace = []) (hrequests : h.world.requests = [name])
    (hminimum : tracker.timers.minimum.active = false) :
    ∃ w' tracker', h.world.step env (.finished name none) = some w' ∧
      Waits (h.record env (.finished name none) w') name tracker' ∧
      tracker'.announceUrl.list = tracker.announceUrl.list ∧
      (h.attemptsAfter env name none).length = (h.attempts name).length + 1 := by
  have hfind : h.world.find name = some tracker := find_sole hconnections
  have hmem : name ∈ h.world.requests := by
    rw [hrequests]
    exact List.mem_singleton.mpr rfl
  obtain ⟨⟨s, hrotated⟩, hrequested⟩ := hr.rotated hfind hmem
  let offline : Tracker := { tracker with context := { tracker.context with online := false } }
  have hoffline : Rotated env offline.plan (h.attempts name) s := hrotated
  obtain ⟨hpos, idx, -, hseek, -⟩ := rotated_seek hoffline
  have hhandler := (inactiveStateHandler_eq env name h.world.manager none hpos hseek).1
  let after : Tracker := { offline.failedTo env idx with
    context := { (offline.failedTo env idx).context with managerSpaceIdx := 0 } }
  let manager₁ : TrackerManager := { h.world.manager with managerSpace := [name] }
  have hfinish : finish name h.world.manager (offline.failedTo env idx) = (manager₁, after) := by
    rw [finish, if_pos hactive, returnToManagerSpace, hspace]
    rfl
  rw [hfinish] at hhandler
  have hrespond : h.world.respond env name tracker none = .ok (manager₁.store name after) :=
    Except.bind_eq_ok.mpr ⟨(manager₁, after), hhandler, rfl⟩
  refine ⟨_, clearData after, finished_sole hidle hconnections hrequests hrespond hconnections, ?_, rfl, ?_⟩
  · have hdelay : 0 ≤ after.timers.maximum.after := failedTo_after henv offline idx
    exact ⟨hidle, hactive, rfl, rfl, rfl, rfl, rfl, rfl, hminimum, rfl, hdelay⟩
  · have hfails : TrackerWorld.fails none = true := rfl
    rw [attemptsAfter, if_pos hactive, rowAfter_eq hfind hrequested hrotated, if_pos hfails,
      List.length_append, List.length_singleton]

/-- The tracker announces, fails, and waits again. -/
theorem again (henv : ∀ index, 0 ≤ env.beyondRetryIntervals index)
    (hreach : (historyMachine env).Reachable h) (hw : Waits h name tracker) :
    ∃ h' tracker', (historyMachine env).Reachable h' ∧ Waits h' name tracker' ∧
      tracker'.announceUrl.list = tracker.announceUrl.list ∧
      (h'.attempts name).length = (h.attempts name).length + 1 := by
  obtain ⟨w₁, w₂, tracker₂, helapse, hexpire, hidle, hactive, hconnections, hspace, hrequests, hplan,
    hminimum⟩ := @expires env h name tracker hw
  have hreach₁ := Machine.Reachable.step hreach (step_record helapse)
  have hreach₂ := Machine.Reachable.step hreach₁ (step_record hexpire)
  obtain ⟨w', tracker', hstep, hwaits, hlist, hlength⟩ := fails_again henv (rotating hreach₂) hidle hactive
    hconnections hspace hrequests hminimum
  refine ⟨_, tracker', Machine.Reachable.step hreach₂ (step_record hstep), hwaits, ?_, ?_⟩
  · exact hlist.trans (congrArg (fun plan => plan.announceUrl.list) hplan)
  · have hattempts : ∀ h : TrackerHistory, (h.record env (.finished name none) w').attempts name =
        if name = name then h.attemptsAfter env name none else h.attempts name := fun _ => rfl
    rw [hattempts, if_pos rfl, hlength]
    rfl

/-- Any number of announces in a row may fail. -/
theorem exists_attempts (henv : ∀ index, 0 ≤ env.beyondRetryIntervals index)
    (hreach : (historyMachine env).Reachable h) (hw : Waits h name tracker) (k : Nat) :
    ∃ h' tracker', (historyMachine env).Reachable h' ∧ Waits h' name tracker' ∧
      tracker'.announceUrl.list = tracker.announceUrl.list ∧
      (h'.attempts name).length = (h.attempts name).length + k := by
  induction k with
  | zero => exact ⟨h, tracker, hreach, hw, rfl, rfl⟩
  | succ k ih =>
      obtain ⟨h₁, tracker₁, hreach₁, hw₁, hlist₁, hlength₁⟩ := ih
      obtain ⟨h₂, tracker₂, hreach₂, hw₂, hlist₂, hlength₂⟩ := again henv hreach₁ hw₁
      exact ⟨h₂, tracker₂, hreach₂, hw₂, hlist₂.trans hlist₁, by rw [hlength₂, hlength₁, Nat.add_assoc]⟩

end Waits

/-! ### The rotation -/

/-- The url of the tracker is an http url of its list. -/
def AtHttpUrl (tracker : Tracker) : Prop := ∃ url, tracker.getUrl = some url ∧ isHttp url = true

/-- The attempts went through these urls in their order and in a circle, and the tracker is at the next. -/
structure RotatesUrls (http : List ByteString) (attempts : List Attempt) (tracker : Tracker) : Prop where
  distinct : http.Nodup
  order : ∃ s, s < http.length ∧
    attempts.map Attempt.url =
      (List.range attempts.length).map (fun i => http[(s + i) % http.length]?) ∧
    tracker.getUrl = http[(s + attempts.length) % http.length]?
  rounds : ∀ a, a + http.length ≤ attempts.length →
    (((attempts.drop a).take http.length).map Attempt.url).Perm (http.map some)
  failures : tracker.context.failures = attempts.length / http.length % 2 ^ 64

theorem url_attemptAt (http : List ByteString) (s i : Nat) :
    (attemptAt env http s i).url = http[(s + i) % http.length]? := by
  rw [attemptAt]
  split
  · rfl
  · rfl

/-- One round of attempts is a rotation of the urls. -/
theorem round_eq {http : List ByteString} {attempts : List Attempt} {s a : Nat}
    (htried : attempts = (List.range attempts.length).map (attemptAt env http s))
    (ha : a + http.length ≤ attempts.length) :
    ((attempts.drop a).take http.length).map Attempt.url = (http.rotate (s + a)).map some := by
  rw [← CyclicSearch.map_range_mod]
  apply List.ext_getElem
  · simp
    omega
  · intro i hi hi'
    have hlt : a + i < attempts.length := by
      simp at hi'
      omega
    have hget : attempts[a + i] = attemptAt env http s (a + i) := by
      have hsame := List.getElem_of_eq htried hlt
      rwa [List.getElem_map, List.getElem_range] at hsame
    rw [List.getElem_map, List.getElem_take, List.getElem_drop, hget, url_attemptAt, List.getElem_map,
      List.getElem_range, Nat.add_assoc]

theorem rotates_of_rotated {s : Nat} {attempts : List Attempt} (hlisted : WellListed n tracker.plan)
    (hrotated : Rotated env tracker.plan attempts s) :
    RotatesUrls (tracker.announceUrl.list.filter isHttp) attempts tracker where
  distinct := hlisted.nodup.filter isHttp
  order := by
    refine ⟨s, hrotated.lt, ?_, CyclicSearch.getElem?_of_hit hrotated.current⟩
    have hmap := congrArg (List.map Attempt.url) hrotated.tried
    rw [List.map_map] at hmap
    refine hmap.trans (List.map_congr_left fun i _ => ?_)
    exact url_attemptAt tracker.plan.httpUrls s i
  rounds a ha := by
    have hround := round_eq hrotated.tried ha
    have hperm := (List.rotate_perm tracker.plan.httpUrls (s + a)).map some
    rw [← hround] at hperm
    exact hperm
  failures := hrotated.failures

theorem atHttpUrl_of_cell {j idx : Nat} (hcell : tracker.plan.httpCells[j]? = some idx)
    (hlist : tracker'.announceUrl.list = tracker.announceUrl.list)
    (hcurrent : tracker'.announceUrl.currentIdx = idx) : AtHttpUrl tracker' := by
  obtain ⟨hlt, hholds⟩ := CyclicSearch.mem_hits.mp (List.mem_of_getElem? hcell)
  have hlt' : idx < tracker.announceUrl.list.length := hlt
  have hurl : tracker.announceUrl.list[idx]? = some tracker.announceUrl.list[idx] :=
    List.getElem?_eq_getElem hlt'
  refine ⟨tracker.announceUrl.list[idx], ?_, ?_⟩
  · rw [getUrl, hlist, hcurrent, hurl]
  · have hdef : CyclicSearch.holdsAt isHttp tracker.announceUrl.list idx = true := hholds
    rw [CyclicSearch.holdsAt, hurl] at hdef
    exact hdef

/-- **Announce url rotation**, in every history: a tracker that a start admits has an http url, both seek
loops end at one, and as long as its announces fail it tries its http urls in a circle and counts the
rounds. -/
theorem announceUrls_rotate (hreach : (historyMachine env).Reachable h)
    (hfind : h.world.find name = some tracker) (hhttp : tracker.context.hasHttp = true) :
    (∃ url ∈ tracker.announceUrl.list, isHttp url = true) ∧
      (∃ sought, tracker.seekHttp = some sought ∧ AtHttpUrl sought) ∧
      (name ∈ h.world.requests → tracker.currentProto = .http) ∧
      (tracker.currentProto = .http →
        (∃ exhausted sought, seekHttpUrl tracker.announceUrl.list.length (noteFailedUrl { tracker with
          state := .inactive, timers := { tracker.timers with type := .one } }) =
            .ok (exhausted, sought) ∧ AtHttpUrl sought) ∧
        (∀ manager, ∃ result, inactiveStateHandler env name manager tracker = .ok result) ∧
        AtHttpUrl tracker ∧
        RotatesUrls (tracker.announceUrl.list.filter isHttp) (h.attempts name) tracker) := by
  have hr := rotating hreach
  obtain ⟨hlisted, hplanned, -⟩ := hr.accounted name tracker hfind
  have hurls := hlisted.http hhttp
  obtain ⟨url, hurl⟩ := List.exists_mem_of_ne_nil _ hurls
  obtain ⟨hmem, hisHttp⟩ := List.mem_filter.mp hurl
  refine ⟨⟨url, hmem, hisHttp⟩, ?_, fun hrequest => (hr.requested name hrequest tracker hfind).1,
    fun hproto => ?_⟩
  · rcases hplanned with ⟨s, hrotated⟩ | hidle
    · have hproto : tracker.currentProto = .http := hrotated.proto
      exact ⟨tracker, by rw [seekHttp, if_pos hproto], atHttpUrl_of_cell hrotated.current rfl rfl⟩
    · obtain ⟨idx, s, hsought, hrotated⟩ := @seekHttp_rotated env tracker _ hidle hurls
      exact ⟨_, hsought, atHttpUrl_of_cell hrotated.current rfl rfl⟩
  · rcases hplanned with ⟨s, hrotated⟩ | hidle
    · obtain ⟨hpos, idx, hidx, hseek, -⟩ := rotated_seek hrotated
      refine ⟨?_, fun manager => ?_, atHttpUrl_of_cell hrotated.current rfl rfl,
        rotates_of_rotated hlisted hrotated⟩
      · have hsought := seekHttpUrl_noted hpos hseek
        rw [noteFailedUrl_failedFirst] at hsought ⊢
        exact ⟨_, _, hsought, atHttpUrl_of_cell hidx rfl rfl⟩
      · exact ⟨_, (inactiveStateHandler_eq env name manager none hpos hseek).1⟩
    · have hnull : tracker.currentProto = .null := hidle.proto
      rw [hproto] at hnull
      cases hnull

/-! One tracker with two http urls and one udp url between them. -/

def mixedUrls : List ByteString :=
  [.ofString "http://t:80/a", .ofString "udp://t:80/b", .ofString "http://t:80/c"]

def mixedTracker : TrackerWorld :=
  .initial ((TrackerManager.initiatlizeTrackers mixedUrls).getD ⟨false, [], [], [], false⟩)

theorem mixedTracker_init : (trackerMachine plainEnvironment).Init mixedTracker := by
  have hsome : (TrackerManager.initiatlizeTrackers mixedUrls).isSome = true := by decide +kernel
  obtain ⟨manager, hmanager⟩ := Option.isSome_iff_exists.mp hsome
  refine ⟨mixedUrls, manager, manager.trackerConnections, hmanager, List.Perm.refl _, ?_⟩
  rw [mixedTracker, hmanager]
  rfl

/-- The history of these events. Where they cannot be taken, there is none. -/
def mixedHistory (es : List TrackerEvent) : TrackerHistory :=
  (Machine.replay (fun _ _ => true) (TrackerHistory.step plainEnvironment) (.initial mixedTracker) es).getD
    (.initial mixedTracker)

theorem mixedHistory_reachable (es : List TrackerEvent) :
    (historyMachine plainEnvironment).Reachable (mixedHistory es) := by
  have hinit : (historyMachine plainEnvironment).Init (.initial mixedTracker) :=
    ⟨mixedTracker, mixedTracker_init, rfl⟩
  exact Machine.ReachableBy.replay_getD (fun _ _ _ => trivial) (fun _ _ _ h => h) (.init hinit) es

/-- An announce after this time, which fails. -/
def failedAnnounce (time : Rat) : List TrackerEvent :=
  [.elapse time, .timerExpires TrackerWorld.nameT .maximum, .finished TrackerWorld.nameT none]

/-- Three announces that fail, the second of which ends the first round. -/
def failingRun : List TrackerEvent :=
  TrackerWorld.handledCall .start ++ failedAnnounce (1 / 10) ++ failedAnnounce 5 ++ failedAnnounce 10

theorem failingRun_find : ∃ tracker,
    (mixedHistory failingRun).world.find TrackerWorld.nameT = some tracker ∧
      (tracker.context.hasHttp = true ∧ tracker.currentProto = .http ∧ tracker.context.failures = 1) := by
  have hmap : ((mixedHistory failingRun).world.find TrackerWorld.nameT).map
      (fun tracker => (tracker.context.hasHttp, tracker.currentProto, tracker.context.failures)) =
        some (true, .http, 1) := by decide +kernel
  obtain ⟨tracker, hfind, hfields⟩ := Option.map_eq_some_iff.mp hmap
  rw [Prod.mk.injEq, Prod.mk.injEq] at hfields
  exact ⟨tracker, hfind, hfields⟩

theorem announceUrls_rotate_mixed : ∃ tracker,
    (mixedHistory failingRun).world.find TrackerWorld.nameT = some tracker ∧
      ((mixedHistory failingRun).attempts TrackerWorld.nameT).map Attempt.delay = [5, 10, 5] ∧
      RotatesUrls (tracker.announceUrl.list.filter isHttp)
        ((mixedHistory failingRun).attempts TrackerWorld.nameT) tracker := by
  obtain ⟨tracker, hfind, hhttp, hproto, -⟩ := failingRun_find
  have hrotates := announceUrls_rotate (mixedHistory_reachable failingRun) hfind hhttp
  obtain ⟨-, -, hurls⟩ := hrotates.2.2.2 hproto
  exact ⟨tracker, hfind, by decide +kernel, hurls.2⟩

/-- The failures in a row that end these events, shutdowns left aside. -/
def failuresInARow (name : ByteString) (es : List TrackerEvent) : Nat :=
  es.foldl (fun k e =>
    match e with
    | .finished n body => if n = name then (if TrackerWorld.fails body then k + 1 else 0) else k
    | _ => k) 0

/-- The second announce fails after a shutdown. -/
def resetRun : List TrackerEvent :=
  TrackerWorld.handledCall .start ++ failedAnnounce (1 / 10) ++
    [.elapse 5, .timerExpires TrackerWorld.nameT .maximum] ++ TrackerWorld.handledCall .shutdown ++
      [.finished TrackerWorld.nameT none]

theorem startedRun_waits : ∃ tracker, Waits (mixedHistory (TrackerWorld.handledCall .start))
    TrackerWorld.nameT tracker ∧ (tracker.announceUrl.list.filter isHttp).length = 2 := by
  obtain ⟨h, hh⟩ : ∃ h, mixedHistory (TrackerWorld.handledCall .start) = h := ⟨_, rfl⟩
  have hworld : h.world.events.invocation = .idle ∧ h.world.manager.active = true ∧
      h.world.manager.managerSpace = [TrackerWorld.nameT] ∧ h.world.requests = [] ∧
        h.world.manager.trackerConnections.map Prod.fst = [TrackerWorld.nameT] := by
    rw [← hh]
    decide +kernel
  have htracker : ∀ entry ∈ h.world.manager.trackerConnections, entry.2.currentProto = .http ∧
      entry.2.timers.type = .one ∧ entry.2.context.managerSpaceIdx = 0 ∧
      entry.2.timers.minimum.active = false ∧ entry.2.timers.maximum.active = true ∧
      0 ≤ entry.2.timers.maximum.after ∧ (entry.2.announceUrl.list.filter isHttp).length = 2 := by
    rw [← hh]
    decide +kernel
  obtain ⟨hidle, hactive, hspace, hrequests, hkeys⟩ := hworld
  obtain ⟨entry, hconnections, hname⟩ := List.map_eq_singleton_iff.mp hkeys
  rw [hconnections] at htracker
  obtain ⟨hproto, htype, hindex, hminimum, hmaximum, hafter, hurls⟩ :=
    htracker entry (List.mem_singleton.mpr rfl)
  rw [hh]
  refine ⟨entry.2, ⟨hidle, hactive, ?_, hspace, hrequests, hproto, htype, hindex, hminimum, hmaximum,
    hafter⟩, hurls⟩
  rw [hconnections, ← hname]

/-- A failure that finds the manager shut down resets the count, and the count is one of 64 bits. -/
theorem failures_ne_rounds :
    (¬ ∀ es h, Machine.replay (fun _ _ => true) (TrackerHistory.step plainEnvironment)
        (.initial mixedTracker) es = some h →
      ∀ tracker, h.world.find TrackerWorld.nameT = some tracker →
        tracker.context.failures = failuresInARow TrackerWorld.nameT es /
          (tracker.announceUrl.list.filter isHttp).length) ∧
    ¬ ∀ h, (historyMachine plainEnvironment).Reachable h →
      ∀ tracker, h.world.find TrackerWorld.nameT = some tracker →
        tracker.context.failures = (h.attempts TrackerWorld.nameT).length /
          (tracker.announceUrl.list.filter isHttp).length := by
  refine ⟨fun hclaim => ?_, fun hclaim => ?_⟩
  · have hfields : (Machine.replay (fun _ _ => true) (TrackerHistory.step plainEnvironment)
        (.initial mixedTracker) resetRun).map (fun h => (h.world.find TrackerWorld.nameT).map
          fun tracker => (tracker.context.failures, (tracker.announceUrl.list.filter isHttp).length)) =
        some (some (0, 2)) := by decide +kernel
    obtain ⟨h, hreplay, hfind⟩ := Option.map_eq_some_iff.mp hfields
    obtain ⟨tracker, hfind, hvalues⟩ := Option.map_eq_some_iff.mp hfind
    have hcount := hclaim resetRun h hreplay tracker hfind
    rw [(Prod.mk.inj hvalues).1, (Prod.mk.inj hvalues).2] at hcount
    exact absurd hcount (by decide +kernel)
  · obtain ⟨tracker, hwaits, hurls⟩ := startedRun_waits
    have henv : ∀ index, 0 ≤ plainEnvironment.beyondRetryIntervals index := fun _ => Int64.le_refl 0
    have hnone : (mixedHistory (TrackerWorld.handledCall .start)).attempts TrackerWorld.nameT = [] := by
      decide +kernel
    obtain ⟨h, tracker', hreach, hwaits', hlist, hlength⟩ := hwaits.exists_attempts henv
      (mixedHistory_reachable (TrackerWorld.handledCall .start)) (2 ^ 65)
    have hfind := Waits.find_sole hwaits'.connections
    have hcount := hclaim h hreach tracker' hfind
    have hr := rotating hreach
    obtain ⟨hlisted, hplanned, -⟩ := hr.accounted _ tracker' hfind
    rcases hplanned with ⟨s, hrotated⟩ | hidle
    · have hrounds := (rotates_of_rotated hlisted hrotated).failures
      rw [hcount, hlength, hnone, hlist, hurls] at hrounds
      exact absurd hrounds (by decide)
    · have hnull : tracker'.currentProto = .null := hidle.proto
      rw [hwaits'.proto] at hnull
      cases hnull

/-! ### The retry table -/

/-- The table is read within its bounds, and the timer is armed for one of its intervals or for the time
between two urls. -/
def WithinTable (attempt : Attempt) : Prop :=
  (∀ index ∈ attempt.read, index < retryIntervals.length) ∧
    (attempt.delay = retryForNewUrl ∨ attempt.delay ∈ retryIntervals)

/-- The first five counts read the five entries in their order. -/
theorem retryRead_withinTable {failures : Nat} (hpos : 0 < failures) (hlt : failures < 6) :
    retryRead failures = some (failures - 1) ∧ failures - 1 < retryIntervals.length ∧
      retryDelay env failures ∈ retryIntervals := by
  have hread : retryRead failures = some (failures - 1) := if_neg (Nat.ne_of_gt hpos)
  have hlength : retryIntervals.length = 5 := rfl
  have hindex : failures - 1 < retryIntervals.length := by omega
  refine ⟨hread, hindex, ?_⟩
  rw [retryDelay, hread]
  dsimp only
  rw [List.getElem?_eq_getElem hindex]
  exact List.getElem_mem hindex

/-- Of the attempts of fewer than six rounds, those that end a round read the table. -/
theorem attemptAt_withinTable {http : List ByteString} {s i : Nat} (hi : i + 1 < 6 * http.length) :
    WithinTable (attemptAt env http s i) := by
  have hpos : 0 < http.length := by omega
  rw [attemptAt]
  split
  · rename_i hround
    have hge : 0 < (i + 1) / http.length :=
      Nat.div_pos (Nat.le_of_dvd (Nat.succ_pos i) (Nat.dvd_of_mod_eq_zero hround)) hpos
    have hlt : (i + 1) / http.length < 6 := (Nat.div_lt_iff_lt_mul hpos).mpr hi
    obtain ⟨hread, hindex, hdelay⟩ := @retryRead_withinTable env _ hge hlt
    rw [Nat.mod_eq_of_lt (hlt.trans (by decide))]
    refine ⟨fun index hmem => ?_, Or.inr hdelay⟩
    have hsame : retryRead ((i + 1) / http.length) = some index := hmem
    cases hread.symm.trans hsame
    exact hindex
  · refine ⟨fun index hmem => ?_, Or.inl rfl⟩
    cases hmem

/-- The sixth round ends with a read past the table. -/
theorem attemptAt_pastTable {http : List ByteString} (hpos : 0 < http.length) (s : Nat) :
    (attemptAt env http s (6 * http.length - 1)).read = some 5 := by
  have hindex : 6 * http.length - 1 + 1 = 6 * http.length := by omega
  have hread : retryRead (6 % 2 ^ 64) = some 5 := by decide
  rw [attemptAt, hindex, if_pos (Nat.mul_mod_left 6 _), Nat.mul_div_cancel _ hpos]
  exact hread

/-- **Retry backoff**, in every history: the failures in a row of a tracker read the table within its bounds
exactly if they are fewer than six rounds. -/
theorem retryReads_within_iff (hreach : (historyMachine env).Reachable h)
    (hfind : h.world.find name = some tracker) (hhttp : tracker.context.hasHttp = true) :
    (∀ attempt ∈ h.row name, WithinTable attempt) ↔
      (h.row name).length < 6 * (tracker.announceUrl.list.filter isHttp).length := by
  obtain ⟨hlisted, -, hrow⟩ := (rotating hreach).accounted name tracker hfind
  have hurls : tracker.announceUrl.list.filter isHttp ≠ [] := hlisted.http hhttp
  have hpos := List.length_pos_iff.mpr hurls
  rcases hrow with hnone | ⟨s, -, htried⟩
  · rw [hnone]
    exact iff_of_true (fun attempt hmem => absurd hmem List.not_mem_nil) (by rw [List.length_nil]; omega)
  · replace htried : h.row name = (List.range (h.row name).length).map
      (attemptAt env (tracker.announceUrl.list.filter isHttp) s) := htried
    constructor
    · intro hwithin
      apply Nat.lt_of_not_le
      intro hmany
      have hlast := hwithin (attemptAt env (tracker.announceUrl.list.filter isHttp) s
        (6 * (tracker.announceUrl.list.filter isHttp).length - 1)) (by
          rw [htried]
          exact List.mem_map_of_mem (List.mem_range.mpr (by omega)))
      have hbound := hlast.1 5 (attemptAt_pastTable hpos s)
      exact absurd hbound (by decide)
    · intro hfew attempt hmem
      rw [htried] at hmem
      obtain ⟨i, hi, rfl⟩ := List.mem_map.mp hmem
      have hlt := List.mem_range.mp hi
      exact attemptAt_withinTable (by omega)

theorem retryReads_within_mixed : ∃ tracker,
    (mixedHistory failingRun).world.find TrackerWorld.nameT = some tracker ∧
      ((∀ attempt ∈ (mixedHistory failingRun).row TrackerWorld.nameT, WithinTable attempt) ↔
        ((mixedHistory failingRun).row TrackerWorld.nameT).length <
          6 * (tracker.announceUrl.list.filter isHttp).length) := by
  obtain ⟨tracker, hfind, hhttp, -⟩ := failingRun_find
  exact ⟨tracker, hfind, retryReads_within_iff (mixedHistory_reachable failingRun) hfind hhttp⟩

/-- Twelve announces of two urls that all fail. -/
def exhaustingRun : List TrackerEvent :=
  TrackerWorld.handledCall .start ++ failedAnnounce (1 / 10) ++ failedAnnounce 5 ++
    [10, 5, 30, 5, 300, 5, 900, 5, 2700, 5].flatMap failedAnnounce

/-- The sixth read of the table is past its end. -/
theorem retryRead_pastTable : ¬ ∀ h, (historyMachine plainEnvironment).Reachable h →
    ∀ name, ∀ attempt ∈ h.row name, WithinTable attempt := by
  intro hclaim
  have hread : ((mixedHistory exhaustingRun).row TrackerWorld.nameT).getLast?.bind Attempt.read =
      some 5 := by decide +kernel
  obtain ⟨attempt, hlast, hindex⟩ := Option.bind_eq_some_iff.mp hread
  have hwithin := hclaim _ (mixedHistory_reachable exhaustingRun) TrackerWorld.nameT attempt
    (List.mem_of_getLast? hlast)
  exact absurd (hwithin.1 5 hindex) (by decide)

end TrackerHistory

end TorrentEngine
