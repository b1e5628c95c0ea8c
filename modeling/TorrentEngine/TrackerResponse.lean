import TorrentEngine.Tracker

/-! Which responses leave a tracker scheduled for its next announce. The handlers that run to their end
arm the timer and return the tracker to the manager space; `active_state_handler` also returns early, for
a response without usable peers, and a response that is not bencode removes the tracker. -/

namespace TorrentEngine

open Bencode Tracker

/-- The peers value is there, and is not a compact list that is empty or cut short. -/
def UsablePeers (parse : Dictionary) : Prop :=
  ∃ peers, find "peers" parse = some peers ∧
    ∀ s p, peers = .string s p → s.bytes ≠ [] ∧ s.size % peer4UnitLength = 0

/-- The response that is empty, names a failure, or has usable peers. -/
def Rescheduling (body : List Byte) : Prop :=
  body = [] ∨ ∃ parse p, Decode.input body = some (.dictionary parse p) ∧
    (contains "failure reason" parse = true ∨ UsablePeers parse)

/-- The response of a successful announce without usable peers. -/
def WithoutPeers (body : List Byte) : Prop :=
  ∃ parse p, Decode.input body = some (.dictionary parse p) ∧
    contains "failure reason" parse = false ∧ ¬ UsablePeers parse

/-- The tracker exists, is in the manager space once, and its maximum timer is armed. -/
def Scheduled (manager : TrackerManager) (name : ByteString) : Prop :=
  ∃ tracker, manager.find name = some tracker ∧ manager.managerSpace.count name = 1 ∧
    tracker.timers.maximum.active = true

namespace TrackerManager

theorem find_store {manager : TrackerManager} {name : ByteString} {tracker : Tracker}
    (h : manager.find name = some tracker) (tracker' : Tracker) :
    (manager.store name tracker').find name = some tracker' := by
  rw [find] at h
  rw [find, store]
  dsimp only
  generalize manager.trackerConnections = entries at h
  induction entries with
  | nil => cases h
  | cons entry entries ih =>
      obtain ⟨key, value⟩ := entry
      rw [List.map_cons]
      by_cases hkey : key = name
      · rw [if_pos hkey, List.lookup_cons_self]
      · have hne : (name == key) = false := beq_eq_false_iff_ne.mpr (Ne.symm hkey)
        rw [List.lookup_cons, hne] at h
        rw [if_neg hkey, List.lookup_cons, hne]
        exact ih h

theorem find_erase (manager : TrackerManager) (name : ByteString) :
    (manager.erase name).find name = none := by
  rw [find, erase]
  dsimp only
  induction manager.trackerConnections with
  | nil => rfl
  | cons entry entries ih =>
      rw [List.filter_cons]
      split
      · rename_i hkeep
        have hne : (name == entry.1) = false :=
          beq_eq_false_iff_ne.mpr (Ne.symm (of_decide_eq_true hkeep))
        rw [List.lookup_cons, hne]
        exact ih
      · exact ih

end TrackerManager

namespace Tracker

variable {env : TrackerEnvironment} {name : ByteString} {manager : TrackerManager}
  {tracker : Tracker}

/-- A handler that reaches its end with the timer armed schedules the tracker, unless the tracker was in
the manager space already. -/
theorem finish_scheduled {tracker₀ : Tracker} (hfind : manager.find name = some tracker₀)
    (hactive : manager.active = true) (harmed : tracker.timers.maximum.active = true) :
    Scheduled ((finish name manager tracker).1.store name (finish name manager tracker).2) name ↔
      manager.managerSpace.count name = 0 := by
  rw [finish, if_pos hactive, returnToManagerSpace]
  dsimp only
  have hfound := @TrackerManager.find_store
    { manager with managerSpace := manager.managerSpace ++ [name] } name tracker₀ hfind
  constructor
  · rintro ⟨tracker', -, hcount, -⟩
    rw [TrackerManager.store] at hcount
    dsimp only at hcount
    rw [List.count_append, List.count_singleton_self] at hcount
    omega
  · intro hcount
    refine ⟨_, hfound _, ?_, harmed⟩
    rw [TrackerManager.store]
    dsimp only
    rw [List.count_append, List.count_singleton_self, hcount]

theorem armTimers_armed (tracker : Tracker) : tracker.armTimers.timers.maximum.active = true := by
  rw [armTimers_eq]
  split
  · rfl
  · rfl

theorem inactiveStateHandler_spec {manager' : TrackerManager} {tracker' : Tracker}
    (h : inactiveStateHandler env name manager tracker = .ok (manager', tracker')) :
    ∃ armed, armed.timers.maximum.active = true ∧ finish name manager armed = (manager', tracker') := by
  rw [inactiveStateHandler] at h
  obtain ⟨⟨exhausted, failed⟩, hfailed, hrest⟩ := Except.bind_eq_ok.mp h
  obtain ⟨sought, -, hlast⟩ := Except.bind_eq_ok.mp hfailed
  cases hlast
  exact ⟨_, rfl, Except.ok.inj hrest⟩

/-! ### The search for an http url -/

/-- How many urls after `current` the url at `target` is, in a list of `n` urls gone through in a
circle. -/
def turnsTo (n current target : Nat) : Nat :=
  if current < target then target - current
  else if n ≤ current then target + 1
  else n - current + target

theorem seekHttpUrl_returns {turns target : Nat} {url : ByteString}
    (hurl : tracker.announceUrl.list[target]? = some url) (hhttp : isHttp url = true)
    (hturns : turnsTo tracker.announceUrl.list.length tracker.announceUrl.currentIdx target ≤ turns) :
    ∃ exhausted tracker', seekHttpUrl turns tracker = .ok (exhausted, tracker') ∧
      tracker'.currentProto = .http := by
  obtain ⟨hlt, hget⟩ := List.getElem?_eq_some_iff.mp hurl
  induction turns generalizing tracker with
  | zero =>
      rw [turnsTo] at hturns
      split at hturns
      · omega
      · split at hturns <;> omega
  | succ turns ih =>
      obtain ⟨next, hnext⟩ : ∃ next, (if tracker.announceUrl.currentIdx + 1 ≥
          tracker.announceUrl.list.length then 0 else tracker.announceUrl.currentIdx + 1) = next :=
        ⟨_, rfl⟩
      have hnextlt : next < tracker.announceUrl.list.length := by
        rw [← hnext]
        split <;> omega
      rw [seekHttpUrl, seekToNextUrl]
      dsimp only
      rw [hnext, List.getElem?_eq_getElem hnextlt]
      simp only [bind, Except.bind]
      by_cases hproto : isHttp tracker.announceUrl.list[next] = true
      · simp only [hproto, if_true]
        exact ⟨_, _, rfl, rfl⟩
      · have hne : next ≠ target := by
          rintro rfl
          rw [hget] at hproto
          exact hproto hhttp
        simp only [hproto, Bool.false_eq_true, if_false, reduceCtorEq]
        refine ih hurl ?_ hlt hget
        dsimp only
        rw [turnsTo] at hturns ⊢
        rw [← hnext] at hne ⊢
        split_ifs at hturns hne ⊢ <;> omega

/-- With an http url in the list the handler of a failed announce returns. -/
theorem inactiveStateHandler_returns {url : ByteString} (hurl : url ∈ tracker.announceUrl.list)
    (hhttp : isHttp url = true) :
    ∃ result, inactiveStateHandler env name manager tracker = .ok result := by
  obtain ⟨target, htarget⟩ := List.mem_iff_getElem?.mp hurl
  obtain ⟨hlt, -⟩ := List.getElem?_eq_some_iff.mp htarget
  rw [inactiveStateHandler, failAnnounce]
  generalize hnoted : noteFailedUrl _ = noted
  have hlist : noted.announceUrl.list = tracker.announceUrl.list := by
    rw [← hnoted, noteFailedUrl]
    split <;> rfl
  rw [← hlist] at htarget hlt
  obtain ⟨exhausted, tracker', hseek, -⟩ :=
    @seekHttpUrl_returns noted noted.announceUrl.list.length target url htarget hhttp (by
      rw [turnsTo]
      split_ifs <;> omega)
  simp only [hseek, bind, Except.bind]
  exact ⟨_, rfl⟩

theorem doOnFailure_returns {url : ByteString} (hurl : url ∈ tracker.announceUrl.list)
    (hhttp : isHttp url = true) :
    ∃ result, TrackerManager.doOnFailure env name manager tracker = .ok result := by
  let offline : Tracker := { tracker with context := { tracker.context with online := false } }
  obtain ⟨⟨manager', tracker'⟩, hresult⟩ :=
    @inactiveStateHandler_returns env name manager offline url hurl hhttp
  rw [TrackerManager.doOnFailure, hresult]
  exact ⟨_, rfl⟩

/-! ### What `active_state_handler` leaves alone -/

theorem readField_eq_ok {α : Type} {key : String} {getAs : Data → Except Fault α}
    {update : α → Tracker → Tracker} {parse : Dictionary} {tracker' : Tracker}
    (h : readField key getAs update parse tracker = .ok tracker') :
    (find key parse = none ∧ tracker' = tracker) ∨
      ∃ found value, find key parse = some found ∧ getAs found = .ok value ∧
        tracker' = update value tracker := by
  rw [readField] at h
  split at h
  · rename_i hnone
    cases h
    exact Or.inl ⟨hnone, rfl⟩
  · rename_i found hfound
    obtain ⟨value, hvalue, hrest⟩ := Except.bind_eq_ok.mp h
    cases hrest
    exact Or.inr ⟨found, value, hfound, hvalue, rfl⟩

/-- What no value of the field touches is as before. -/
theorem readField_keeps {α β : Type} (part : Tracker → β) {key : String} {getAs : Data → Except Fault α}
    {update : α → Tracker → Tracker} {parse : Dictionary} {tracker' : Tracker}
    (h : readField key getAs update parse tracker = .ok tracker')
    (hupdate : ∀ value t, part (update value t) = part t) : part tracker' = part tracker := by
  rcases readField_eq_ok h with ⟨-, rfl⟩ | ⟨_, value, -, -, rfl⟩
  · rfl
  · exact hupdate value tracker

/-- The handler returns among the peers exactly when they are not usable. -/
theorem pushPeers_none_iff {parse : Dictionary} {discoveries : List PeerContact}
    {queued : Option (List PeerContact × Bool)} (h : pushPeers env parse discoveries = .ok queued) :
    queued = none ↔ ¬ UsablePeers parse := by
  rw [pushPeers] at h
  split at h
  · rename_i hmissing
    cases h
    refine iff_of_true rfl ?_
    rintro ⟨peers, hpeers, -⟩
    rw [hmissing] at hpeers
    cases hpeers
  · rename_i peerBinaries p hpeers
    split at h
    · rename_i hcut
      cases h
      refine iff_of_true rfl ?_
      rintro ⟨peers, hfound, hfull⟩
      rw [hpeers] at hfound
      cases hfound
      obtain ⟨hne, hmod⟩ := hfull _ _ rfl
      exact hcut.elim hne (fun hmod' => hmod' hmod)
    · rename_i hcut
      rw [not_or, not_not] at hcut
      cases h
      refine iff_of_false (by simp) (not_not.mpr ⟨_, hpeers, ?_⟩)
      intro s p' heq
      cases heq
      exact hcut
  · rename_i peerList p hpeers
    obtain ⟨pushed, -, hrest⟩ := Except.bind_eq_ok.mp h
    cases hrest
    exact iff_of_false (by simp) (not_not.mpr ⟨_, hpeers, fun s p' heq => by cases heq⟩)
  · rename_i peers hstring hlist hpeers
    cases h
    refine iff_of_false (by simp) (not_not.mpr ⟨_, hpeers, ?_⟩)
    rintro s p rfl
    exact absurd rfl (hstring s p)

/-- What `active_state_handler` reads, and what it does then. -/
theorem activeStateHandler_reads {parse : Dictionary} {result : TrackerManager × Tracker}
    (h : activeStateHandler env name manager tracker parse = .ok result) :
    ∃ tracker₁ tracker₂ tracker₃ queued,
      readInterval parse { tracker with state := .active }.resetFailureStats = .ok tracker₁ ∧
      readMinInterval parse tracker₁ = .ok tracker₂ ∧ readTrackerId parse tracker₂ = .ok tracker₃ ∧
      pushPeers env parse manager.discoveries = .ok queued ∧
      ((queued = none ∧ result = (manager, tracker₃)) ∨
        ∃ discoveries signalled, queued ≠ none ∧
          result = finish name { manager with discoveries, consumerSignalled := signalled }
            tracker₃.armTimers) := by
  rw [activeStateHandler] at h
  obtain ⟨⟨tracker₃, queued⟩, hread, hrest⟩ := Except.bind_eq_ok.mp h
  obtain ⟨tracker₁, tracker₂, hinterval, hmin, hid, hpush⟩ := readResponse_eq_ok.mp hread
  refine ⟨tracker₁, tracker₂, tracker₃, queued, hinterval, hmin, hid, hpush, ?_⟩
  cases queued with
  | none => exact Or.inl ⟨rfl, (Except.ok.inj hrest).symm⟩
  | some queued => exact Or.inr ⟨_, _, Option.some_ne_none _, (Except.ok.inj hrest).symm⟩

/-- The two ways `active_state_handler` returns. -/
theorem activeStateHandler_spec {parse : Dictionary} {manager' : TrackerManager} {tracker' : Tracker}
    (h : activeStateHandler env name manager tracker parse = .ok (manager', tracker')) :
    (¬ UsablePeers parse ∧ manager' = manager ∧
        tracker'.timers.maximum = tracker.timers.maximum) ∨
      (UsablePeers parse ∧ ∃ discoveries signalled armed,
        armed.timers.maximum.active = true ∧
        finish name { manager with discoveries, consumerSignalled := signalled } armed =
          (manager', tracker')) := by
  obtain ⟨tracker₁, tracker₂, tracker₃, queued, hinterval, hmin, hid, hpush, hresult⟩ :=
    activeStateHandler_reads h
  have husable := pushPeers_none_iff hpush
  rcases hresult with ⟨hnone, heq⟩ | ⟨discoveries, signalled, hsome, heq⟩
  · cases heq
    refine Or.inl ⟨husable.mp hnone, rfl, ?_⟩
    calc
      _ = tracker₂.timers.maximum := readField_keeps (·.timers.maximum) hid fun _ _ => rfl
      _ = tracker₁.timers.maximum := readField_keeps (·.timers.maximum) hmin fun _ _ => rfl
      _ = _ := readField_keeps (·.timers.maximum) hinterval fun _ _ => rfl
  · refine Or.inr ⟨not_not.mp fun hnot => hsome (husable.mpr hnot), ?_⟩
    exact ⟨discoveries, signalled, tracker₃.armTimers, armTimers_armed tracker₃, heq.symm⟩

theorem inactiveStateHandler_scheduled {tracker₀ : Tracker} {manager' : TrackerManager}
    {tracker' : Tracker} (hfind : manager.find name = some tracker₀) (hactive : manager.active = true)
    (h : inactiveStateHandler env name manager tracker = .ok (manager', tracker')) :
    Scheduled (manager'.store name tracker') name ↔ manager.managerSpace.count name = 0 := by
  obtain ⟨armed, harmed, hfinish⟩ := inactiveStateHandler_spec h
  have hscheduled := finish_scheduled hfind hactive harmed
  rwa [hfinish] at hscheduled

theorem activeStateHandler_scheduled {tracker₀ : Tracker} {parse : Dictionary}
    {manager' : TrackerManager} {tracker' : Tracker} (hfind : manager.find name = some tracker₀)
    (hactive : manager.active = true)
    (h : activeStateHandler env name manager tracker parse = .ok (manager', tracker')) :
    Scheduled (manager'.store name tracker') name ↔
      (UsablePeers parse ∧ manager.managerSpace.count name = 0) ∨
        (¬ UsablePeers parse ∧ manager.managerSpace.count name = 1 ∧
          tracker.timers.maximum.active = true) := by
  rcases activeStateHandler_spec h with
    ⟨husable, rfl, htimer⟩ | ⟨husable, discoveries, consumerSignalled, armed, harmed, hfinish⟩
  · have hstored := TrackerManager.find_store hfind tracker'
    simp only [husable, false_and, not_false_eq_true, true_and, false_or]
    constructor
    · rintro ⟨found, hfound, hcount, harmed⟩
      rw [hstored] at hfound
      cases hfound
      rw [htimer] at harmed
      exact ⟨hcount, harmed⟩
    · rintro ⟨hcount, harmed⟩
      exact ⟨tracker', hstored, hcount, by rw [htimer, harmed]⟩
  · simp only [husable, true_and, not_true, false_and, or_false]
    have hscheduled := @finish_scheduled name { manager with discoveries, consumerSignalled } armed
      tracker₀ hfind hactive harmed
    rwa [hfinish] at hscheduled

end Tracker

theorem not_scheduled_erase (manager : TrackerManager) (name : ByteString) :
    ¬ Scheduled (manager.erase name) name := by
  rintro ⟨tracker, hfound, -, -⟩
  rw [TrackerManager.find_erase] at hfound
  cases hfound

/-- After a response that raises no exception, a tracker whose request was with the HTTP handler is
scheduled exactly if the response is empty, names a failure or has usable peers. A tracker that was
already back in the manager space is scheduled exactly if its timer was armed before and the handler
returned early. -/
theorem scheduled_iff {env : TrackerEnvironment} {name : ByteString}
    {manager manager' : TrackerManager} {tracker : Tracker}
    (hfind : manager.find name = some tracker) (hdomain : tracker.announceUrl.domainName = name)
    (hactive : manager.active = true)
    (hreturn : manager.doOnSuccess env name tracker = .ok manager') :
    Scheduled manager' name ↔
      (Rescheduling tracker.data ∧ manager.managerSpace.count name = 0) ∨
        (WithoutPeers tracker.data ∧ manager.managerSpace.count name = 1 ∧
          tracker.timers.maximum.active = true) := by
  rw [TrackerManager.doOnSuccess] at hreturn
  dsimp only at hreturn
  split at hreturn
  · rename_i hempty
    obtain ⟨⟨_, _⟩, hhandler, hrest⟩ := Except.bind_eq_ok.mp hreturn
    cases hrest
    have hreschedule : Rescheduling tracker.data := Or.inl hempty
    have hpeers : ¬ WithoutPeers tracker.data := by
      rintro ⟨parse, p, hinput, -⟩
      rw [hempty] at hinput
      cases hinput
    rw [inactiveStateHandler_scheduled hfind hactive hhandler]
    simp only [hreschedule, hpeers, true_and, false_and, or_false]
  · rename_i hbody
    split at hreturn
    · rename_i hinput
      cases hreturn
      rw [hdomain, Rescheduling, WithoutPeers, hinput]
      simp only [hbody, reduceCtorEq, false_and, exists_false, or_false]
      exact iff_of_false (not_scheduled_erase manager name) id
    · rename_i parse hinput
      obtain ⟨parsedDict, hdict, hrest⟩ := Except.bind_eq_ok.mp hreturn
      obtain ⟨p, rfl⟩ := Data.getAsDictionary_eq_ok.mp hdict
      have hreschedule : Rescheduling tracker.data ↔
          contains "failure reason" parsedDict = true ∨ UsablePeers parsedDict := by
        rw [Rescheduling, hinput]
        simp [hbody]
      have hpeers : WithoutPeers tracker.data ↔
          contains "failure reason" parsedDict = false ∧ ¬ UsablePeers parsedDict := by
        rw [WithoutPeers, hinput]
        simp
      rw [hreschedule, hpeers]
      split at hrest
      · rename_i hfailure
        obtain ⟨⟨_, _⟩, hhandler, hdone⟩ := Except.bind_eq_ok.mp hrest
        cases hdone
        rw [inactiveStateHandler_scheduled hfind hactive hhandler]
        simp only [hfailure, true_or, true_and, Bool.true_eq_false, false_and, or_false]
      · rename_i hsuccess
        rw [Bool.not_eq_true] at hsuccess
        obtain ⟨⟨_, _⟩, hhandler, hdone⟩ := Except.bind_eq_ok.mp hrest
        cases hdone
        rw [activeStateHandler_scheduled hfind hactive hhandler]
        simp only [hsuccess, Bool.false_eq_true, false_or, true_and]

/-! One tracker with its request at the HTTP handler, and no addresses to resolve. -/

def plainEnvironment : TrackerEnvironment := ⟨fun _ => none, fun _ => none, fun _ => 0⟩

def trackerName : ByteString := .ofString "t"

def announcedTracker (body : List Char) : Tracker :=
  { data := body.map ascii, trackerId := .empty, state := .inactive, currentProto := .http
    context := ⟨true, false, true, 0, 0⟩
    timers := ⟨0, ⟨false, 0⟩, 0, ⟨false, 0⟩, .one⟩
    announceUrl := ⟨[.ofString "http://t/a"], trackerName, 0, 0, false⟩ }

def announcedManager (body : List Char) : TrackerManager :=
  ⟨true, [(trackerName, announcedTracker body)], [], [], false⟩

def respond (body : List Char) : Except Fault TrackerManager :=
  (announcedManager body).doOnSuccess plainEnvironment trackerName (announcedTracker body)

/-- A response with one peer, in compact form. -/
def onePeer : List Char :=
  ['d', '5', ':', 'p', 'e', 'e', 'r', 's', '6', ':', 'a', 'b', 'c', 'd', 'e', 'f', 'e']

theorem scheduled_iff_onePeer : ∃ manager', respond onePeer = .ok manager' ∧
    (Scheduled manager' trackerName ↔
      (Rescheduling (announcedTracker onePeer).data ∧
        (announcedManager onePeer).managerSpace.count trackerName = 0) ∨
      (WithoutPeers (announcedTracker onePeer).data ∧
        (announcedManager onePeer).managerSpace.count trackerName = 1 ∧
        (announcedTracker onePeer).timers.maximum.active = true)) := by
  have hok : (respond onePeer).isOk = true := rfl
  cases hreturn : respond onePeer with
  | error fault =>
      rw [hreturn] at hok
      cases hok
  | ok manager' => exact ⟨manager', rfl, scheduled_iff rfl rfl rfl hreturn⟩

/-- The empty dictionary `de` is a response without peers: afterwards the tracker is in no space and no
timer runs for it. -/
theorem empty_dictionary_not_scheduled : ∃ manager', respond ['d', 'e'] = .ok manager' ∧
    ¬ Scheduled manager' trackerName := by
  have hspace : (respond ['d', 'e']).map TrackerManager.managerSpace = .ok [] := rfl
  cases hreturn : respond ['d', 'e'] with
  | error fault =>
      rw [hreturn] at hspace
      cases hspace
  | ok manager' =>
      refine ⟨manager', rfl, ?_⟩
      rintro ⟨tracker, -, hcount, -⟩
      rw [hreturn] at hspace
      rw [Except.ok.inj hspace] at hcount
      cases hcount

end TorrentEngine
