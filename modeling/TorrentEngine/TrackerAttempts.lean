import TorrentEngine.TrackerRotation

/-! The failed announces of whole runs: in every history each tracker is idle, or goes round its http urls
with each announce that fails. -/

open Transition

namespace TorrentEngine

open Bencode Tracker AnnouncePlan

namespace TrackerHistory

variable {env : TrackerEnvironment} {h h' : TrackerHistory} {e : TrackerEvent} {w w' : TrackerWorld}
  {name n : ByteString} {tracker tracker' : Tracker} {body : Option (List Byte)}

/-- Failed announces in a row go through these urls in a circle. -/
def InRow (env : TrackerEnvironment) (http : List ByteString) (row : List Attempt) : Prop :=
  row = [] ∨ ∃ s, s < http.length ∧ row = (List.range row.length).map (attemptAt env http s)

/-- The plan of a tracker agrees with its failed announces. -/
structure Accounted (env : TrackerEnvironment) (name : ByteString) (plan : AnnouncePlan)
    (attempts row : List Attempt) : Prop where
  listed : WellListed name plan
  planned : Planned env plan attempts
  inRow : InRow env plan.httpUrls row

/-- The trackers are in rotation or idle, and requests are made with the url the tracker is at. -/
structure Rotating (env : TrackerEnvironment) (h : TrackerHistory) : Prop where
  keys : h.world.keys.Nodup
  accounted : ∀ n tracker, h.world.find n = some tracker →
    Accounted env n tracker.plan (h.attempts n) (h.row n)
  requested : ∀ n ∈ h.world.requests, ∀ tracker, h.world.find n = some tracker →
    tracker.currentProto = .http ∧ h.requested n = tracker.getUrl

theorem getUrl_congr (hplan : tracker'.plan = tracker.plan) : tracker'.getUrl = tracker.getUrl :=
  congrArg currentUrl hplan

theorem proto_congr (hplan : tracker'.plan = tracker.plan) : tracker'.currentProto = tracker.currentProto :=
  congrArg AnnouncePlan.currentProto hplan

theorem initial_rotating (hinit : (trackerMachine env).Init w) : Rotating env (.initial w) := by
  obtain ⟨hkeys, hrequests, hplanned⟩ := TrackerWorld.init_planned hinit
  refine ⟨hkeys, fun n tracker hfind => ?_, fun n hmem => ?_⟩
  · obtain ⟨hlisted, hidle⟩ := hplanned n tracker hfind
    exact ⟨hlisted, Or.inr hidle, Or.inl rfl⟩
  · have hnone : n ∈ w.requests := hmem
    rw [hrequests] at hnone
    cases hnone

theorem record_of_not_finished (hne : ∀ name body, e ≠ .finished name body) (h : TrackerHistory) :
    (h.record env e w').attempts = h.attempts ∧ (h.record env e w').row = h.row := by
  cases e with
  | finished name body => exact absurd rfl (hne name body)
  | signal | timerExpires | elapse | consume => exact ⟨rfl, rfl⟩

/-- A request that goes on keeps its url, and a new one has the url that its tracker is at. -/
theorem record_requested (hfind : w'.find n = some tracker') (hmem : n ∈ w'.requests) :
    (h.record env e w').requested n = if n ∈ h.world.requests then h.requested n else tracker'.getUrl := by
  have hrecord : (h.record env e w').requested n =
      if n ∈ w'.requests ∧ n ∉ h.world.requests then (w'.find n).bind getUrl else h.requested n := rfl
  rw [hrecord]
  by_cases hold : n ∈ h.world.requests
  · rw [if_pos hold, if_neg fun hnew => hnew.2 hold]
  · rw [if_neg hold, if_pos ⟨hmem, hold⟩, hfind]
    rfl

theorem Rotating.keeps (hr : Rotating env h) (hne : ∀ name body, e ≠ .finished name body)
    (hkeeps : TrackerWorld.KeepsPlans h.world w') : Rotating env (h.record env e w') where
  keys := hkeeps.keys ▸ hr.keys
  accounted n tracker' hfind := by
    obtain ⟨tracker, hbefore, hplan⟩ := hkeeps.plans n tracker' hfind
    obtain ⟨hattempts, hrow⟩ := record_of_not_finished hne h
    rw [hplan, hattempts, hrow]
    exact hr.accounted n tracker hbefore
  requested n hmem tracker' hfind := by
    obtain ⟨tracker, hbefore, hplan⟩ := hkeeps.plans n tracker' hfind
    have hfind' : w'.find n = some tracker' := hfind
    rw [record_requested hfind' hmem, proto_congr hplan, getUrl_congr hplan]
    split
    · rename_i hold
      exact hr.requested n hold tracker hbefore
    · rename_i hnew
      rcases hkeeps.requests n hmem with hold | ⟨tracker₁, hbefore₁, hproto⟩
      · exact absurd hold hnew
      · cases hbefore.symm.trans hbefore₁
        exact ⟨hproto, rfl⟩

/-- A start brings a tracker from idleness to rotation. -/
theorem Accounted.started {attempts row : List Attempt} (ha : Accounted env n tracker.plan attempts row)
    (hstarted : TrackerWorld.StartedFrom tracker tracker') :
    Accounted env n tracker'.plan attempts row ∧
      (tracker.currentProto = .http → tracker'.plan = tracker.plan) := by
  rcases hstarted with hsame | ⟨hhttp, sought, hsought, hplan⟩
  · rw [hsame]
    exact ⟨ha, fun _ => rfl⟩
  · rcases ha.planned with ⟨s, hrotated⟩ | hidle
    · have hproto : tracker.currentProto = .http := hrotated.proto
      rw [seekHttp, if_pos hproto] at hsought
      cases hsought
      rw [hplan]
      exact ⟨ha, fun _ => rfl⟩
    · obtain ⟨idx, s, heq, hrotated⟩ := @seekHttp_rotated env tracker _ hidle (ha.listed.http hhttp)
      cases hsought.symm.trans heq
      rw [hplan]
      refine ⟨⟨⟨ha.listed.domain, ha.listed.nodup, ha.listed.http⟩, Or.inl ⟨s, hrotated⟩, ha.inRow⟩,
        fun hproto => ?_⟩
      have hnull : tracker.currentProto = .null := hidle.proto
      rw [hproto] at hnull
      cases hnull

theorem Rotating.starts (hr : Rotating env h) (hne : ∀ name body, e ≠ .finished name body)
    (hstarts : TrackerWorld.StartsPlans h.world w') : Rotating env (h.record env e w') where
  keys := hstarts.keys ▸ hr.keys
  accounted n tracker' hfind := by
    obtain ⟨tracker, hbefore, hstarted⟩ := hstarts.plans n tracker' hfind
    obtain ⟨hattempts, hrow⟩ := record_of_not_finished hne h
    rw [hattempts, hrow]
    exact ((hr.accounted n tracker hbefore).started hstarted).1
  requested n hmem tracker' hfind := by
    obtain ⟨tracker, hbefore, hstarted⟩ := hstarts.plans n tracker' hfind
    have hfind' : w'.find n = some tracker' := hfind
    have hold : n ∈ h.world.requests := hstarts.requests ▸ hmem
    obtain ⟨hproto, hrequested⟩ := hr.requested n hold tracker hbefore
    have hsame := ((hr.accounted n tracker hbefore).started hstarted).2 hproto
    rw [record_requested hfind' hmem, if_pos hold, proto_congr hsame, getUrl_congr hsame]
    exact ⟨hproto, hrequested⟩

/-! ### The end of a request -/

theorem answering_plan {before : Tracker} (h : TrackerWorld.Answering tracker before) :
    before.plan = tracker.plan := by
  obtain ⟨data, online, rfl⟩ := h
  rfl

/-- A tracker whose request is done is in rotation. -/
theorem Rotating.rotated (hr : Rotating env h) (hfind : h.world.find name = some tracker)
    (hmem : name ∈ h.world.requests) :
    (∃ s, Rotated env tracker.plan (h.attempts name) s) ∧ h.requested name = tracker.getUrl := by
  obtain ⟨hproto, hrequested⟩ := hr.requested name hmem tracker hfind
  rcases (hr.accounted name tracker hfind).planned with hrotated | hidle
  · exact ⟨hrotated, hrequested⟩
  · have hnull : tracker.currentProto = .null := hidle.proto
    rw [hproto] at hnull
    cases hnull

/-- A failure is the next in the row. -/
theorem rowAfter_eq (hfind : h.world.find name = some tracker)
    (hrequested : h.requested name = tracker.getUrl) {s : Nat}
    (hrotated : Rotated env tracker.plan (h.attempts name) s) :
    h.rowAfter env name body =
      if TrackerWorld.fails body then
        h.attempts name ++ [attemptAt env tracker.plan.httpUrls s (h.attempts name).length]
      else [] := by
  rw [rowAfter, hfind, hrequested]
  dsimp only
  rw [failedAttempt_rotated hrotated]

theorem Rotating.inRow (hr : Rotating env h) (hfind : h.world.find name = some tracker)
    (hmem : name ∈ h.world.requests) : InRow env tracker.plan.httpUrls (h.rowAfter env name body) := by
  obtain ⟨⟨s, hrotated⟩, hrequested⟩ := hr.rotated hfind hmem
  rw [rowAfter_eq hfind hrequested hrotated]
  split
  · refine Or.inr ⟨s, hrotated.lt, ?_⟩
    rw [List.length_append, List.length_singleton, List.range_succ, List.map_append, List.map_singleton,
      ← hrotated.tried]
  · exact Or.inl rfl

theorem finish_accounted {name : ByteString} {manager manager' : TrackerManager} {after after' : Tracker}
    {attempts row : List Attempt} (hfinish : finish name manager after = (manager', after'))
    (ha : Accounted env n after.plan attempts row) :
    Accounted env n after'.plan (if manager.active then attempts else []) row := by
  rw [(finish_spec hfinish).2]
  split
  · exact ha
  · exact ⟨⟨ha.listed.domain, ha.listed.nodup, ha.listed.http⟩, Or.inr (shutdownReset_idle after), ha.inRow⟩

theorem Rotating.failed {before after : Tracker} {manager' : TrackerManager} (hr : Rotating env h)
    (hfind : h.world.find name = some tracker) (hmem : name ∈ h.world.requests)
    (hfails : TrackerWorld.fails body = true) (hbefore : TrackerWorld.Answering tracker before)
    (hhandler : inactiveStateHandler env name h.world.manager before = .ok (manager', after)) :
    manager'.trackerConnections = h.world.manager.trackerConnections ∧
      Accounted env name after.plan (h.attemptsAfter env name body) (h.rowAfter env name body) := by
  have hrow := @Rotating.inRow env h name tracker body hr hfind hmem
  obtain ⟨⟨s, hrotated⟩, hrequested⟩ := hr.rotated hfind hmem
  have hlisted := (hr.accounted name tracker hfind).listed
  rw [rowAfter_eq hfind hrequested hrotated, hfails, if_pos rfl] at hrow
  rw [attemptsAfter, rowAfter_eq hfind hrequested hrotated, hfails, if_pos rfl]
  rw [← answering_plan hbefore] at hrotated hlisted hrow ⊢
  obtain ⟨idx, hfinish, hnext⟩ := failed_rotated hrotated hhandler
  refine ⟨(finish_spec hfinish).1, finish_accounted hfinish ⟨?_, Or.inl ⟨s, hnext⟩, hrow⟩⟩
  exact ⟨hlisted.domain, hlisted.nodup, hlisted.http⟩

theorem Rotating.succeeded {before after : Tracker} {manager' : TrackerManager} {parse : Dictionary}
    (hr : Rotating env h) (hfind : h.world.find name = some tracker) (hmem : name ∈ h.world.requests)
    (hfails : TrackerWorld.fails body = false) (hbefore : TrackerWorld.Answering tracker before)
    (hhandler : activeStateHandler env name h.world.manager before parse = .ok (manager', after)) :
    manager'.trackerConnections = h.world.manager.trackerConnections ∧
      Accounted env name after.plan (h.attemptsAfter env name body) (h.rowAfter env name body) := by
  obtain ⟨⟨s, hrotated⟩, hrequested⟩ := hr.rotated hfind hmem
  have hlisted := (hr.accounted name tracker hfind).listed
  obtain ⟨manager₁, after₁, minimumDuration, maximumDuration, hconnections, hresult, hplan⟩ :=
    succeeded_plan hhandler
  rw [answering_plan hbefore] at hplan
  have ha : Accounted env name after₁.plan [] [] := by
    rw [hplan]
    exact ⟨⟨hlisted.domain, hlisted.nodup, hlisted.http⟩,
      Or.inl ⟨_, hrotated.succeeded minimumDuration maximumDuration⟩, Or.inl rfl⟩
  rw [attemptsAfter, rowAfter_eq hfind hrequested hrotated, hfails, if_neg Bool.false_ne_true, ite_self]
  rcases hresult with hfinish | heq
  · have hended := finish_accounted hfinish ha
    rw [ite_self] at hended
    exact ⟨(finish_spec hfinish).1.trans hconnections, hended⟩
  · cases heq
    exact ⟨hconnections, ha⟩

/-- Storing the tracker leaves the others as they were. -/
theorem Rotating.stored {manager' : TrackerManager} {after : Tracker} {attempts row : List Attempt}
    (hr : Rotating env h) (hfind : h.world.find name = some tracker)
    (hended : manager'.trackerConnections = h.world.manager.trackerConnections ∧
      Accounted env name after.plan attempts row) :
    ((manager'.store name after).trackerConnections.map Prod.fst).Nodup ∧
      (∀ n, n ≠ name → (manager'.store name after).find n = h.world.find n) ∧
      ∀ after', (manager'.store name after).find name = some after' →
        Accounted env name after'.plan attempts row := by
  obtain ⟨hconnections, ha⟩ := hended
  have hsame : ∀ n, manager'.find n = h.world.find n := by
    intro n
    rw [TrackerManager.find, hconnections]
    rfl
  refine ⟨?_, fun n hne => ?_, fun after' hafter => ?_⟩
  · rw [TrackerManager.keys_store, hconnections]
    exact hr.keys
  · rw [TrackerManager.find_store_eq, if_neg hne, hsame]
  · rw [TrackerManager.find_store ((hsame name).trans hfind)] at hafter
    cases hafter
    exact ha

/-- The manager after the end of a request: the tracker is in rotation, or idle, or gone. -/
theorem Rotating.ended {manager' : TrackerManager} (hr : Rotating env h)
    (hfind : h.world.find name = some tracker) (hmem : name ∈ h.world.requests)
    (hended : TrackerWorld.Ended env h.world.manager name body tracker manager') :
    (manager'.trackerConnections.map Prod.fst).Nodup ∧
      (∀ n, n ≠ name → manager'.find n = h.world.find n) ∧
      ∀ after, manager'.find name = some after →
        Accounted env name after.plan (h.attemptsAfter env name body) (h.rowAfter env name body) := by
  cases hended with
  | erased =>
      have hdomain : tracker.announceUrl.domainName = name := (hr.accounted name tracker hfind).listed.domain
      rw [hdomain]
      refine ⟨?_, fun n hne => TrackerWorld.find_erase_of_ne hne, fun after hafter => ?_⟩
      · exact hr.keys.sublist (List.filter_sublist.map Prod.fst)
      · rw [TrackerManager.find_erase] at hafter
        cases hafter
  | failed hfails hbefore hhandler =>
      exact hr.stored hfind (hr.failed hfind hmem hfails hbefore hhandler)
  | succeeded hfails _ _ hhandler =>
      exact hr.stored hfind (hr.succeeded hfind hmem hfails ⟨_, true, rfl⟩ hhandler)

theorem Rotating.ends {manager' : TrackerManager} (hr : Rotating env h)
    (hfind : h.world.find name = some tracker) (hmem : name ∈ h.world.requests)
    (hended : TrackerWorld.Ended env h.world.manager name body tracker manager')
    (hmanager : w'.manager = manager'.change name clearData)
    (hrequests : w'.requests = h.world.requests.filter (· ≠ name)) :
    Rotating env (h.record env (.finished name body) w') := by
  obtain ⟨hkeys, hothers, hself⟩ := hr.ended hfind hmem hended
  have hfound : ∀ n, w'.find n =
      if n = name then (manager'.find n).map clearData else h.world.find n := by
    intro n
    rw [TrackerWorld.find, hmanager, TrackerManager.find_change]
    split
    · rfl
    · rename_i hne
      exact hothers n hne
  have hattempts : ∀ n, (h.record env (.finished name body) w').attempts n =
      if n = name then h.attemptsAfter env name body else h.attempts n := fun _ => rfl
  have hrow : ∀ n, (h.record env (.finished name body) w').row n =
      if n = name then h.rowAfter env name body else h.row n := fun _ => rfl
  refine ⟨?_, fun n after hafter => ?_, fun n hrequest after hafter => ?_⟩
  · have hkeys' : w'.keys = manager'.trackerConnections.map Prod.fst := by
      rw [TrackerWorld.keys, hmanager]
      exact TrackerManager.keys_change name clearData
    exact hkeys'.symm ▸ hkeys
  · have hafter' : w'.find n = some after := hafter
    rw [hfound] at hafter'
    rw [hattempts, hrow]
    by_cases hn : n = name
    · rw [if_pos hn, hn] at hafter'
      obtain ⟨after₁, hafter₁, rfl⟩ := Option.map_eq_some_iff.mp hafter'
      rw [if_pos hn, if_pos hn, hn]
      exact hself after₁ hafter₁
    · rw [if_neg hn] at hafter'
      rw [if_neg hn, if_neg hn]
      exact hr.accounted n after hafter'
  · have hrequest' : n ∈ w'.requests := hrequest
    rw [hrequests, List.mem_filter] at hrequest'
    obtain ⟨hold, hne⟩ := hrequest'
    have hafter' : w'.find n = some after := hafter
    have hbefore : h.world.find n = some after := by
      rw [hfound, if_neg (of_decide_eq_true hne)] at hafter'
      exact hafter'
    rw [record_requested hafter' hrequest, if_pos hold]
    exact hr.requested n hold after hbefore

/-- **Run lemma.** In every history the trackers are in rotation or idle. -/
theorem rotating (hreach : (historyMachine env).Reachable h) : Rotating env h := by
  refine hreach.invariant (Rotating env) (fun h hinit => ?_) fun h e h' hr hstep => ?_
  · obtain ⟨w, hw, rfl⟩ := hinit
    exact initial_rotating hw
  · obtain ⟨w', hw', rfl⟩ := step_eq_some hstep
    cases TrackerWorld.step_replans hr.keys hw' with
    | keeps hne hkeeps => exact hr.keeps hne hkeeps
    | starts hne hstarts => exact hr.starts hne hstarts
    | ends hfind hmem hended hmanager hrequests => exact hr.ends hfind hmem hended hmanager hrequests

end TrackerHistory

end TorrentEngine
