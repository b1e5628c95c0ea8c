import TorrentEngine.TrackerHistory
import TorrentEngine.TrackerHosts

/-! The rotation of the announce urls. As long as announces fail, a tracker goes through its http urls in
their order and in a circle; once in each round it is back at the url that failed first and counts a
failure. -/

open Transition CyclicSearch

namespace TorrentEngine

open Bencode Tracker

/-! ### The search for the next url -/

namespace AnnouncePlan

/-- The places of the http urls in the list. -/
def httpCells (plan : AnnouncePlan) : List Nat :=
  hits (holdsAt isHttp plan.announceUrl.list) plan.announceUrl.list.length

def httpUrls (plan : AnnouncePlan) : List ByteString := plan.announceUrl.list.filter isHttp

/-- The url of the plan is one of the list. -/
def currentUrl (plan : AnnouncePlan) : Option ByteString :=
  plan.announceUrl.list[plan.announceUrl.currentIdx]?

/-- The `i`-th attempt in a row of those that began at the `s`-th of these urls. -/
def attemptAt (env : TrackerEnvironment) (http : List ByteString) (s i : Nat) : Attempt :=
  if (i + 1) % http.length = 0 then
    ⟨http[(s + i) % http.length]?, retryRead ((i + 1) / http.length % 2 ^ 64),
      retryDelay env ((i + 1) / http.length % 2 ^ 64)⟩
  else ⟨http[(s + i) % http.length]?, none, retryForNewUrl⟩

/-- The plan of a tracker that is at an http url, after these attempts from the `s`-th http url on. -/
structure Rotated (env : TrackerEnvironment) (plan : AnnouncePlan) (attempts : List Attempt) (s : Nat) :
    Prop where
  proto : plan.currentProto = .http
  lt : s < plan.httpUrls.length
  current : plan.httpCells[(s + attempts.length) % plan.httpUrls.length]? =
    some plan.announceUrl.currentIdx
  tried : attempts = (List.range attempts.length).map (attemptAt env plan.httpUrls s)
  failures : plan.failures = attempts.length / plan.httpUrls.length % 2 ^ 64
  justFailed : plan.announceUrl.justFailed = decide (0 < attempts.length)
  failedIdx : 0 < attempts.length → plan.httpCells[s]? = some plan.announceUrl.failedIdx

/-- The plan of a tracker that has not been started, or was reset. -/
structure Idle (plan : AnnouncePlan) (attempts : List Attempt) : Prop where
  proto : plan.currentProto = .null
  tried : attempts = []
  failures : plan.failures = 0
  justFailed : plan.announceUrl.justFailed = false
  current : plan.announceUrl.currentIdx = 0

theorem length_httpCells (plan : AnnouncePlan) : plan.httpCells.length = plan.httpUrls.length :=
  length_hits isHttp plan.announceUrl.list

theorem mem_list_of_cell {plan : AnnouncePlan} {j idx : Nat} (h : plan.httpCells[j]? = some idx) :
    idx < plan.announceUrl.list.length := (mem_hits.mp (List.mem_of_getElem? h)).1

/-- After so many more attempts a rotation is back where it began exactly if these are whole rounds. -/
theorem add_mod_eq_iff {s m h : Nat} (hs : s < h) : (s + m) % h = s ↔ m % h = 0 := by
  have hmod : (s + m) % h = s ↔ s + m ≡ s + 0 [MOD h] := by
    rw [Nat.ModEq, Nat.add_zero, Nat.mod_eq_of_lt hs]
  rw [hmod]
  constructor
  · intro hsame
    exact Nat.ModEq.add_left_cancel' s hsame
  · intro hzero
    exact Nat.ModEq.add_left s hzero

/-- The count of failures goes up at the end of a round. -/
theorem succ_div_mod (k h : Nat) :
    (k + 1) / h % 2 ^ 64 =
      if (k + 1) % h = 0 then SizeT.inc (k / h % 2 ^ 64) else k / h % 2 ^ 64 := by
  rw [Nat.succ_div]
  by_cases hround : (k + 1) % h = 0
  · rw [if_pos (Nat.dvd_of_mod_eq_zero hround), if_pos hround, SizeT.inc, Nat.mod_add_mod]
  · rw [if_neg fun hdvd => hround (Nat.mod_eq_zero_of_dvd hdvd), if_neg hround, Nat.add_zero]

/-- The plan after a success. -/
def succeeded (plan : AnnouncePlan) (minimumDuration maximumDuration : Int64) : AnnouncePlan :=
  { plan with
    announceUrl := { plan.announceUrl with failedIdx := 2 ^ 64 - 1, justFailed := false }
    failures := 0, minimumDuration, maximumDuration }

/-- A success leaves the tracker at its url, from which the next attempts go on. -/
theorem Rotated.succeeded {env : TrackerEnvironment} {plan : AnnouncePlan} {attempts : List Attempt} {s : Nat}
    (h : Rotated env plan attempts s) (minimumDuration maximumDuration : Int64) :
    Rotated env (plan.succeeded minimumDuration maximumDuration) []
      ((s + attempts.length) % plan.httpUrls.length) where
  proto := h.proto
  lt := Nat.mod_lt _ (Nat.zero_lt_of_lt h.lt)
  current := by
    rw [List.length_nil, Nat.add_zero]
    exact (congrArg (plan.httpCells[·]?) (Nat.mod_mod _ _)).trans h.current
  tried := rfl
  failures := by
    rw [List.length_nil, Nat.zero_div]
    rfl
  justFailed := rfl
  failedIdx hlt := absurd hlt (Nat.lt_irrefl 0)

/-- The plan of a tracker that is in rotation or idle. -/
def Planned (env : TrackerEnvironment) (plan : AnnouncePlan) (attempts : List Attempt) : Prop :=
  (∃ s, Rotated env plan attempts s) ∨ Idle plan attempts

/-- What the urls of a tracker have in common with its key and its mark. -/
structure WellListed (name : ByteString) (plan : AnnouncePlan) : Prop where
  domain : plan.announceUrl.domainName = name
  nodup : plan.announceUrl.list.Nodup
  http : plan.hasHttp = true → plan.httpUrls ≠ []

end AnnouncePlan

namespace Tracker

variable {env : TrackerEnvironment} {name : ByteString} {manager manager' : TrackerManager}
  {tracker tracker' : Tracker} {parse : Dictionary} {idx : Nat}

/-- The seek loop is the search of the ring of urls. -/
theorem seekHttpUrl_eq (turns : Nat) (hpos : 0 < tracker.announceUrl.list.length) :
    seekHttpUrl turns tracker =
      match seek (holdsAt isHttp tracker.announceUrl.list) tracker.announceUrl.list.length turns
        tracker.announceUrl.currentIdx with
      | none => .error .undefined
      | some idx => .ok (tracker.announceUrl.failedIdx = idx, tracker.atUrl idx) := by
  induction turns generalizing tracker with
  | zero => rfl
  | succ turns ih =>
      have hlt : after tracker.announceUrl.list.length tracker.announceUrl.currentIdx <
          tracker.announceUrl.list.length := by
        rw [after]
        split
        · exact hpos
        · omega
      obtain ⟨url, hurl⟩ : ∃ url, tracker.announceUrl.list[after tracker.announceUrl.list.length
          tracker.announceUrl.currentIdx]? = some url := ⟨_, List.getElem?_eq_getElem hlt⟩
      have hholds : holdsAt isHttp tracker.announceUrl.list
          (after tracker.announceUrl.list.length tracker.announceUrl.currentIdx) = isHttp url := by
        rw [holdsAt, hurl]
        rfl
      have hnext : seekToNextUrl tracker = .ok (tracker.announceUrl.failedIdx =
          after tracker.announceUrl.list.length tracker.announceUrl.currentIdx,
          { tracker with
            announceUrl := { tracker.announceUrl with
              currentIdx := after tracker.announceUrl.list.length tracker.announceUrl.currentIdx }
            currentProto := if isHttp url then .http else .udp }) := by
        rw [seekToNextUrl]
        dsimp only
        rw [← after, hurl]
      rw [seekHttpUrl, hnext, seek, hholds]
      by_cases hhttp : isHttp url
      · rw [if_pos hhttp]
        simp only [bind, Except.bind, hhttp, if_true]
        rfl
      · rw [if_neg hhttp]
        simp only [bind, Except.bind, hhttp, if_false, reduceCtorEq, Bool.false_eq_true]
        exact ih hpos

theorem seekHttpUrl_of_seek (hpos : 0 < tracker.announceUrl.list.length)
    (hseek : seek (holdsAt isHttp tracker.announceUrl.list) tracker.announceUrl.list.length
      tracker.announceUrl.list.length tracker.announceUrl.currentIdx = some idx) :
    seekHttpUrl tracker.announceUrl.list.length tracker =
      .ok (tracker.announceUrl.failedIdx = idx, tracker.atUrl idx) := by
  rw [seekHttpUrl_eq _ hpos, hseek]

/-- The url that failed first, when this one fails. -/
def failedFirst (tracker : Tracker) : Nat :=
  if tracker.announceUrl.justFailed then tracker.announceUrl.failedIdx else tracker.announceUrl.currentIdx

theorem noteFailedUrl_failedFirst (tracker : Tracker) :
    noteFailedUrl tracker = { tracker with
      announceUrl := { tracker.announceUrl with failedIdx := tracker.failedFirst, justFailed := true } } := by
  rw [noteFailedUrl, failedFirst]
  split
  · rename_i hfailed
    rw [← hfailed]
  · rfl

/-- The tracker after a failed announce, when the search stops at this place. -/
def failedTo (env : TrackerEnvironment) (idx : Nat) (tracker : Tracker) : Tracker :=
  let failures := if tracker.failedFirst = idx then SizeT.inc tracker.context.failures
    else tracker.context.failures
  let maximumDuration := if tracker.failedFirst = idx then retryDelay env failures else retryForNewUrl
  { tracker with
    state := .inactive
    currentProto := .http
    context := { tracker.context with failures }
    timers := { tracker.timers with
      type := .one, maximumDuration, maximum := EvTimer.arm maximumDuration.toInt }
    announceUrl := { tracker.announceUrl with
      currentIdx := idx, failedIdx := tracker.failedFirst, justFailed := true } }

/-- The search from the url that failed tells whether it is back at the one that failed first. -/
theorem seekHttpUrl_noted (hpos : 0 < tracker.announceUrl.list.length)
    (hseek : seek (holdsAt isHttp tracker.announceUrl.list) tracker.announceUrl.list.length
      tracker.announceUrl.list.length tracker.announceUrl.currentIdx = some idx) :
    let noted := noteFailedUrl { tracker with
      state := .inactive, timers := { tracker.timers with type := .one } }
    seekHttpUrl tracker.announceUrl.list.length noted =
      .ok (decide (tracker.failedFirst = idx), noted.atUrl idx) := by
  intro noted
  have hsought := @seekHttpUrl_of_seek noted idx
  have hnoted : noted.announceUrl =
      { tracker.announceUrl with failedIdx := tracker.failedFirst, justFailed := true } :=
    congrArg Tracker.announceUrl (noteFailedUrl_failedFirst _)
  rw [hnoted] at hsought
  exact hsought hpos hseek

/-- What the handler of a failed announce does, by where its search stops. -/
theorem inactiveStateHandler_eq (env : TrackerEnvironment) (name : ByteString) (manager : TrackerManager)
    (url : Option ByteString) (hpos : 0 < tracker.announceUrl.list.length)
    (hseek : seek (holdsAt isHttp tracker.announceUrl.list) tracker.announceUrl.list.length
      tracker.announceUrl.list.length tracker.announceUrl.currentIdx = some idx) :
    inactiveStateHandler env name manager tracker = .ok (finish name manager (tracker.failedTo env idx)) ∧
      failedAttempt env url tracker = .ok
        (if tracker.failedFirst = idx then ⟨url, retryRead (SizeT.inc tracker.context.failures),
            retryDelay env (SizeT.inc tracker.context.failures)⟩
          else ⟨url, none, retryForNewUrl⟩) := by
  have hsought := seekHttpUrl_noted hpos hseek
  have hfailed : failAnnounce env tracker =
      .ok (decide (tracker.failedFirst = idx), tracker.failedTo env idx) := by
    rw [failAnnounce]
    rw [noteFailedUrl_failedFirst] at hsought ⊢
    refine Except.bind_eq_ok.mpr ⟨_, hsought, ?_⟩
    rw [failedTo]
    by_cases hround : tracker.failedFirst = idx
    · rw [decide_eq_true hround, if_pos hround, if_pos hround]
      rfl
    · rw [decide_eq_false hround, if_neg hround, if_neg hround]
      rfl
  refine ⟨Except.bind_eq_ok.mpr ⟨_, hfailed, rfl⟩, Except.bind_eq_ok.mpr ⟨_, hfailed, ?_⟩⟩
  rw [failedTo]
  by_cases hround : tracker.failedFirst = idx
  · rw [decide_eq_true hround, if_pos hround, if_pos hround, if_pos hround]
    rfl
  · rw [decide_eq_false hround, if_neg hround, if_neg hround, if_neg hround]
    rfl

open AnnouncePlan

variable {attempts : List Attempt} {s : Nat}

theorem rotated_failedFirst (h : Rotated env tracker.plan attempts s) :
    tracker.plan.httpCells[s]? = some tracker.failedFirst := by
  have hjust : tracker.announceUrl.justFailed = decide (0 < attempts.length) := h.justFailed
  rw [Tracker.failedFirst, hjust]
  by_cases htried : 0 < attempts.length
  · rw [decide_eq_true htried, if_pos rfl]
    exact h.failedIdx htried
  · rw [decide_eq_false htried, if_neg Bool.false_ne_true]
    have hcurrent := h.current
    rwa [Nat.eq_zero_of_not_pos htried, Nat.add_zero, Nat.mod_eq_of_lt h.lt] at hcurrent

/-- The search goes to the next http url, and is back at the one that failed first after whole rounds. -/
theorem rotated_seek (h : Rotated env tracker.plan attempts s) :
    0 < tracker.announceUrl.list.length ∧
      ∃ idx, tracker.plan.httpCells[(s + (attempts.length + 1)) % tracker.plan.httpUrls.length]? = some idx ∧
        CyclicSearch.seek (holdsAt isHttp tracker.announceUrl.list) tracker.announceUrl.list.length
          tracker.announceUrl.list.length tracker.announceUrl.currentIdx = some idx ∧
        (tracker.failedFirst = idx ↔ (attempts.length + 1) % tracker.plan.httpUrls.length = 0) := by
  have hcells := tracker.plan.length_httpCells
  have hnext : (s + (attempts.length + 1)) % tracker.plan.httpUrls.length <
      tracker.plan.httpCells.length := by
    rw [hcells]
    exact Nat.mod_lt _ (Nat.zero_lt_of_lt h.lt)
  have hseek := seek_hit h.current
  have hsame : ((s + attempts.length) % tracker.plan.httpUrls.length + 1) %
      tracker.plan.httpCells.length =
        (s + (attempts.length + 1)) % tracker.plan.httpUrls.length := by
    rw [hcells, Nat.mod_add_mod, Nat.add_assoc]
  refine ⟨Nat.zero_lt_of_lt (mem_list_of_cell h.current), tracker.plan.httpCells[_],
    List.getElem?_eq_getElem hnext, ?_, ?_⟩
  · calc
      _ = tracker.plan.httpCells[((s + attempts.length) % tracker.plan.httpUrls.length + 1) %
          tracker.plan.httpCells.length]? := hseek
      _ = _ := by rw [hsame, List.getElem?_eq_getElem hnext]
  · obtain ⟨hlt, hfirst⟩ := List.getElem?_eq_some_iff.mp (rotated_failedFirst h)
    have hinj : tracker.plan.httpCells.Nodup := nodup_hits
    rw [← hfirst, hinj.getElem_inj_iff, eq_comm]
    exact add_mod_eq_iff h.lt

/-- The next attempt of a tracker, if it fails. -/
theorem failedAttempt_rotated (h : Rotated env tracker.plan attempts s) :
    failedAttempt env tracker.getUrl tracker =
      .ok (attemptAt env tracker.plan.httpUrls s attempts.length) := by
  obtain ⟨hpos, idx, -, hseek, hround⟩ := rotated_seek h
  have hattempt := (inactiveStateHandler_eq env .empty ⟨false, [], [], [], false⟩ tracker.getUrl hpos hseek).2
  have hurl : tracker.getUrl = tracker.plan.httpUrls[(s + attempts.length) % tracker.plan.httpUrls.length]? :=
    getElem?_of_hit h.current
  have hfailures : tracker.context.failures = attempts.length / tracker.plan.httpUrls.length % 2 ^ 64 :=
    h.failures
  have hcount := succ_div_mod attempts.length tracker.plan.httpUrls.length
  rw [hattempt, attemptAt, hurl, hfailures]
  by_cases hwhole : (attempts.length + 1) % tracker.plan.httpUrls.length = 0
  · rw [if_pos hwhole] at hcount
    rw [if_pos (hround.mpr hwhole), if_pos hwhole, hcount]
  · rw [if_neg fun heq => hwhole (hround.mp heq), if_neg hwhole]

/-- **Step lemma** of the rotation. A failed announce leaves the tracker at the next http url. -/
theorem failed_rotated (h : Rotated env tracker.plan attempts s)
    (hhandler : inactiveStateHandler env name manager tracker = .ok (manager', tracker')) :
    ∃ idx, finish name manager (tracker.failedTo env idx) = (manager', tracker') ∧
      Rotated env (tracker.failedTo env idx).plan
        (attempts ++ [attemptAt env tracker.plan.httpUrls s attempts.length]) s := by
  obtain ⟨hpos, idx, hidx, hseek, hround⟩ := rotated_seek h
  have heq := (inactiveStateHandler_eq env name manager none hpos hseek).1
  have hfailures : tracker.context.failures = attempts.length / tracker.plan.httpUrls.length % 2 ^ 64 :=
    h.failures
  have hcount := succ_div_mod attempts.length tracker.plan.httpUrls.length
  have hlength : (attempts ++ [attemptAt env tracker.plan.httpUrls s attempts.length]).length =
      attempts.length + 1 := List.length_append
  have hurls : (tracker.failedTo env idx).plan.httpUrls = tracker.plan.httpUrls := rfl
  have hafter : (tracker.failedTo env idx).plan.failures = if tracker.failedFirst = idx then
      SizeT.inc tracker.context.failures else tracker.context.failures := rfl
  have hfirst := rotated_failedFirst h
  rw [heq] at hhandler
  refine ⟨idx, Except.ok.inj hhandler, rfl, h.lt, ?_, ?_, ?_, ?_, fun _ => hfirst⟩
  · rw [hlength]
    exact hidx
  · rw [hlength, hurls, List.range_succ, List.map_append, List.map_singleton, ← h.tried]
  · rw [hlength, hurls, hafter, hcount, hfailures]
    simp only [hround]
  · rw [hlength]
    exact (decide_eq_true (Nat.succ_pos _)).symm

theorem succeeded_plan (h : activeStateHandler env name manager tracker parse = .ok (manager', tracker')) :
    ∃ manager₁ after minimumDuration maximumDuration,
      manager₁.trackerConnections = manager.trackerConnections ∧
      (finish name manager₁ after = (manager', tracker') ∨ (manager₁, after) = (manager', tracker')) ∧
      after.plan = tracker.plan.succeeded minimumDuration maximumDuration := by
  obtain ⟨tracker₁, tracker₂, tracker₃, queued, hinterval, hmin, hid, -, hresult⟩ :=
    activeStateHandler_reads h
  have hread := fieldsRead hinterval hmin hid
  have hplan : tracker₃.plan = tracker.plan.succeeded tracker₃.timers.minimumDuration
      tracker₃.timers.maximumDuration := by
    rw [plan, hread.announceUrl, hread.proto, hread.context]
    rfl
  rcases hresult with ⟨-, heq⟩ | ⟨discoveries, signalled, -, heq⟩
  · exact ⟨manager, tracker₃, _, _, rfl, Or.inr heq.symm, hplan⟩
  · exact ⟨{ manager with discoveries, consumerSignalled := signalled }, tracker₃.armTimers, _, _, rfl,
      Or.inl heq.symm, (plan_armTimers tracker₃).trans hplan⟩

/-- Both handlers end with the tracker as it is, or reset. -/
theorem finish_spec (h : finish name manager tracker = (manager', tracker')) :
    manager'.trackerConnections = manager.trackerConnections ∧
      tracker'.plan = if manager.active then tracker.plan else tracker.shutdownReset.plan := by
  rw [finish] at h
  split at h
  · rename_i hactive
    cases h
    exact ⟨rfl, (if_pos hactive).symm⟩
  · rename_i hinactive
    cases h
    exact ⟨rfl, (if_neg hinactive).symm⟩

theorem shutdownReset_idle (tracker : Tracker) : Idle tracker.shutdownReset.plan [] :=
  ⟨rfl, rfl, rfl, rfl, rfl⟩

/-- A start finds an http url for a tracker that has one. -/
theorem seekHttp_rotated (hidle : Idle tracker.plan attempts) (hhttp : tracker.plan.httpUrls ≠ []) :
    ∃ idx s, tracker.seekHttp = some (tracker.atUrl idx) ∧ Rotated env (tracker.atUrl idx).plan attempts s := by
  have hcells : tracker.plan.httpCells ≠ [] := by
    rw [← List.length_pos_iff, length_httpCells, List.length_pos_iff]
    exact hhttp
  have hcurrent : tracker.announceUrl.currentIdx = 0 := hidle.current
  have hlength : 0 < tracker.announceUrl.list.length := by
    obtain ⟨cell, hcell⟩ := List.exists_mem_of_ne_nil _ hcells
    exact Nat.zero_lt_of_lt (mem_hits.mp hcell).1
  obtain ⟨s, hs, hseek⟩ := exists_seek hlength hcells
  obtain ⟨idx, hidx⟩ : ∃ idx, tracker.plan.httpCells[s]? = some idx := ⟨_, List.getElem?_eq_getElem hs⟩
  have hlt : s < tracker.plan.httpUrls.length := hs.trans_eq tracker.plan.length_httpCells
  replace hseek := hseek.trans hidx
  rw [← hcurrent] at hseek
  have hproto : tracker.currentProto ≠ .http := by
    rw [show tracker.currentProto = .null from hidle.proto]
    exact TrackerProto.noConfusion
  have htried := hidle.tried
  subst htried
  refine ⟨idx, s, ?_, rfl, hlt, ?_, rfl, ?_, hidle.justFailed, fun hlt => absurd hlt (Nat.lt_irrefl 0)⟩
  · rw [seekHttp, if_neg hproto, seekHttpUrl_of_seek hlength hseek]
  · rw [List.length_nil, Nat.add_zero]
    exact (congrArg (tracker.plan.httpCells[·]?) (Nat.mod_eq_of_lt hlt)).trans hidx
  · rw [List.length_nil, Nat.zero_div]
    exact hidle.failures

end Tracker

/-! ### The urls that a tracker is given -/

open AnnouncePlan

/-- What holds of a fresh tracker and is kept with every url holds of every tracker. -/
theorem find_initiatlizeTrackers {P : ByteString → Tracker → Prop} (hfresh : ∀ name, P name (fresh name))
    (hnote : ∀ name url tracker, P name tracker → P name (TrackerManager.noteUrl url tracker))
    {urls : List ByteString} {manager manager' : TrackerManager}
    (hmanager : ∀ n tracker, manager.find n = some tracker → P n tracker)
    (h : urls.foldlM TrackerManager.initiatlizeTracker manager = some manager') :
    ∀ n tracker, manager'.find n = some tracker → P n tracker := by
  induction urls generalizing manager with
  | nil =>
      cases h
      exact hmanager
  | cons url urls ih =>
      rw [List.foldlM_cons] at h
      obtain ⟨next, hturn, hrest⟩ := Option.bind_eq_some_iff.mp h
      refine ih (fun n tracker hfind => ?_) hrest
      have hname := hturn
      rw [TrackerManager.initiatlizeTracker] at hname
      obtain ⟨name, hname, -⟩ := Option.bind_eq_some_iff.mp hname
      rw [find_initiatlizeTracker hname hturn] at hfind
      split at hfind
      · rw [← Option.some.inj hfind]
        cases hbefore : manager.find n with
        | none => exact hnote n url _ (hfresh n)
        | some before => exact hnote n url _ (hmanager n before hbefore)
      · exact hmanager n tracker hfind

namespace TrackerWorld

variable {env : TrackerEnvironment} {w : TrackerWorld} {name : ByteString} {tracker : Tracker}

theorem mem_connections_of_find (h : w.find name = some tracker) :
    (name, tracker) ∈ w.manager.trackerConnections := by
  obtain ⟨before, after, hsplit, -⟩ := List.lookup_eq_some_iff.mp h
  rw [hsplit]
  exact List.mem_append_right _ List.mem_cons_self

/-- A tracker before the first start. -/
theorem init_planned (h : (trackerMachine env).Init w) :
    w.keys.Nodup ∧ w.requests = [] ∧ ∀ n tracker, w.find n = some tracker →
      WellListed n tracker.plan ∧ Idle tracker.plan [] := by
  obtain ⟨hinitiated, hinitial⟩ := init_initiated h
  have hrequests : w.requests = [] := by rw [hinitial, initial]
  obtain ⟨urls, manager, trackerConnections, hurls, hperm, rfl⟩ := h
  refine ⟨hinitiated.keys, hrequests, fun n tracker hfind => ?_⟩
  have hmem := hperm.mem_iff.mp (mem_connections_of_find hfind)
  have hempty : Initiated ⟨false, [], [], [], false⟩ :=
    ⟨List.nodup_nil, fun _ hentry => absurd hentry List.not_mem_nil, rfl, rfl⟩
  have hkeys : (initial manager).keys.Nodup := (initiatlizeTrackers_initiated hempty hurls).keys
  refine @find_initiatlizeTrackers (fun n tracker => WellListed n tracker.plan ∧ Idle tracker.plan [])
    (fun name => ?_) (fun name url tracker hbefore => ?_) _ _ manager (fun n tracker hnone => ?_) hurls n
      tracker (find_of_mem_connections hkeys hmem)
  · exact ⟨⟨rfl, List.nodup_nil, fun hhttp => Bool.noConfusion hhttp⟩, ⟨rfl, rfl, rfl, rfl, rfl⟩⟩
  · obtain ⟨hlisted, hidle⟩ := hbefore
    refine ⟨⟨hlisted.domain, ?_, ?_⟩, ⟨hidle.proto, rfl, hidle.failures, hidle.justFailed, hidle.current⟩⟩
    · have hnodup : tracker.announceUrl.list.Nodup := hlisted.nodup
      rw [plan, TrackerManager.noteUrl]
      dsimp only
      split
      · exact hnodup
      · rename_i hnew
        exact hnodup.append (List.nodup_singleton url) (List.disjoint_singleton.mpr hnew)
    · intro hhttp
      have hmarked : (tracker.context.hasHttp || isHttp url) = true := hhttp
      rw [httpUrls, plan, TrackerManager.noteUrl]
      dsimp only
      rw [Bool.or_eq_true] at hmarked
      have hkept : tracker.announceUrl.list.filter isHttp ≠ [] ∨ isHttp url = true :=
        hmarked.imp_left hlisted.http
      split
      · rename_i hold
        rcases hkept with hkept | hurl
        · exact hkept
        · exact List.ne_nil_of_mem (List.mem_filter.mpr ⟨hold, hurl⟩)
      · rw [List.filter_append]
        rcases hkept with hkept | hurl
        · exact List.append_ne_nil_of_left_ne_nil hkept _
        · exact List.append_ne_nil_of_right_ne_nil _ (by simp [hurl])
  · cases hnone

end TrackerWorld

end TorrentEngine
