import TorrentEngine.Library.CyclicSearch
import TorrentEngine.TrackerSpace

/-! Which url a tracker announces to next, and how long it waits before. In every run only a start and the
end of a request change that; all else moves trackers about and arms or stops their timers. -/

open Transition CyclicSearch

namespace TorrentEngine

open Bencode Tracker

theorem TrackerManager.find_store_eq (manager : TrackerManager) (name n : ByteString) (tracker : Tracker) :
    (manager.store name tracker).find n =
      if n = name then (manager.find n).map fun _ => tracker else manager.find n := by
  split
  · rename_i heq
    rw [heq]
    cases hfind : manager.find name with
    | some before => exact find_store hfind tracker
    | none =>
        rw [find, List.lookup_eq_none_iff] at hfind
        rw [Option.map_none, find, store, List.lookup_eq_none_iff]
        intro entry hentry
        obtain ⟨before, hbefore, rfl⟩ := List.mem_map.mp hentry
        have hne := hfind before hbefore
        rw [if_neg (Ne.symm (bne_iff_ne.mp hne))]
        exact hne
  · rename_i hne
    exact find_store_of_ne hne tracker

/-- What the next announce of a tracker depends on. -/
structure AnnouncePlan where
  announceUrl : AnnounceList
  currentProto : TrackerProto
  hasHttp : Bool
  failures : Nat
  minimumDuration : Int64
  maximumDuration : Int64

namespace Tracker

def plan (tracker : Tracker) : AnnouncePlan where
  announceUrl := tracker.announceUrl
  currentProto := tracker.currentProto
  hasHttp := tracker.context.hasHttp
  failures := tracker.context.failures
  minimumDuration := tracker.timers.minimumDuration
  maximumDuration := tracker.timers.maximumDuration

theorem plan_disarm (which : TimerName) (tracker : Tracker) : (tracker.disarm which).plan = tracker.plan := by
  cases which with
  | minimum => rfl
  | maximum => rfl

theorem plan_armTimers (tracker : Tracker) : tracker.armTimers.plan = tracker.plan := by
  rw [armTimers_eq]
  split
  · rfl
  · rfl

end Tracker

namespace TrackerWorld

variable {env : TrackerEnvironment} {w w₁ w' : TrackerWorld} {e : TrackerEvent} {name n : ByteString}
  {tracker tracker' : Tracker} {body : Option (List Byte)}

def keys (w : TrackerWorld) : List ByteString := w.manager.trackerConnections.map Prod.fst

/-- The plans are as before, and requests are for trackers at an http url. -/
structure KeepsPlans (w w' : TrackerWorld) : Prop where
  keys : w'.keys = w.keys
  plans : ∀ n tracker', w'.find n = some tracker' →
    ∃ tracker, w.find n = some tracker ∧ tracker'.plan = tracker.plan
  requests : ∀ n ∈ w'.requests, n ∈ w.requests ∨
    ∃ tracker, w.find n = some tracker ∧ tracker.currentProto = .http

namespace KeepsPlans

theorem of_same (hmanager : w'.manager.trackerConnections = w.manager.trackerConnections)
    (hrequests : w'.requests = w.requests) : KeepsPlans w w' where
  keys := congrArg (List.map Prod.fst) hmanager
  plans n tracker' h := by
    rw [find, TrackerManager.find, hmanager] at h
    exact ⟨tracker', h, rfl⟩
  requests n h := by
    rw [hrequests] at h
    exact Or.inl h

theorem refl (w : TrackerWorld) : KeepsPlans w w := of_same rfl rfl

theorem trans (h : KeepsPlans w w₁) (h' : KeepsPlans w₁ w') : KeepsPlans w w' where
  keys := h'.keys.trans h.keys
  plans n tracker' hfind := by
    obtain ⟨tracker₁, hfind₁, hplan₁⟩ := h'.plans n tracker' hfind
    obtain ⟨tracker, hfind, hplan⟩ := h.plans n tracker₁ hfind₁
    exact ⟨tracker, hfind, hplan₁.trans hplan⟩
  requests n hmem := by
    rcases h'.requests n hmem with hold | ⟨tracker₁, hfind₁, hproto⟩
    · exact h.requests n hold
    · obtain ⟨tracker, hfind, hplan⟩ := h.plans n tracker₁ hfind₁
      exact Or.inr ⟨tracker, hfind, (congrArg AnnouncePlan.currentProto hplan).symm.trans hproto⟩

end KeepsPlans

theorem change_keepsPlans (w : TrackerWorld) (name : ByteString) {f : Tracker → Tracker}
    (hf : ∀ tracker, (f tracker).plan = tracker.plan) : KeepsPlans w (w.change name f) where
  keys := TrackerManager.keys_change name f
  plans n tracker' h := by
    rw [find_change] at h
    split at h
    · obtain ⟨tracker, hfind, rfl⟩ := Option.map_eq_some_iff.mp h
      exact ⟨tracker, hfind, hf tracker⟩
    · exact ⟨tracker', h, rfl⟩
  requests n h := Or.inl h

theorem check_keepsPlans (w : TrackerWorld) (c : TrackerCheck) (expected : Prop) [Decidable expected] :
    KeepsPlans w (w.check c expected) := by
  unfold check
  split
  · exact .refl w
  · exact .of_same rfl rfl

theorem sendToProtocolSpace_keepsPlans (w : TrackerWorld) (name : ByteString) :
    KeepsPlans w (w.sendToProtocolSpace name) := by
  rw [sendToProtocolSpace]
  dsimp only
  have hcheck := check_keepsPlans w .handOver (name ∈ w.space ∧ name ∉ w.requests)
  generalize w.check .handOver (name ∈ w.space ∧ name ∉ w.requests) = w₁ at hcheck
  split
  · rename_i last tracker _ _
    have hchange := @change_keepsPlans w₁ last (setManagerSpaceIdx tracker.context.managerSpaceIdx)
      fun _ => rfl
    exact hcheck.trans (hchange.trans (.of_same rfl rfl))
  · exact hcheck

theorem addRequest_keepsPlans (w : TrackerWorld) (name : ByteString) : KeepsPlans w (w.addRequest name) := by
  rw [addRequest]
  split
  · rename_i tracker hfind
    split
    · rename_i hhttp
      refine ⟨rfl, fun n tracker' h => ⟨tracker', h, rfl⟩, fun n hmem => ?_⟩
      rcases List.mem_append.mp hmem with hold | hnew
      · exact Or.inl hold
      · rw [List.mem_singleton.mp hnew]
        exact Or.inr ⟨tracker, hfind, hhttp.1⟩
    · exact .refl w
  · exact .refl w

theorem handOver_keepsPlans (w : TrackerWorld) (name : ByteString) :
    KeepsPlans w ((w.sendToProtocolSpace name).addRequest name) :=
  (sendToProtocolSpace_keepsPlans w name).trans (addRequest_keepsPlans _ name)

theorem disarm_keepsPlans (w : TrackerWorld) (name : ByteString) (which : TimerName) :
    KeepsPlans w (w.change name (disarm which)) := change_keepsPlans w name (plan_disarm which)

theorem trackerTimeoutHandler_keepsPlans (w : TrackerWorld) (name : ByteString) (which : TimerName) :
    KeepsPlans w (w.trackerTimeoutHandler name which) := by
  have hdisarm := disarm_keepsPlans w name which
  rw [trackerTimeoutHandler]
  generalize w.change name (disarm which) = w₁ at hdisarm
  split
  · exact hdisarm
  · split
    · exact hdisarm.trans (change_keepsPlans w₁ name fun _ => rfl)
    · exact hdisarm.trans (handOver_keepsPlans w₁ name)

/-! ### The handlers that go through the manager space -/

theorem reannounceTracker_keepsPlans (w : TrackerWorld) (name : ByteString) :
    KeepsPlans w (w.reannounceTracker name) := by
  rw [reannounceTracker]
  split
  · exact .refl w
  · split
    · dsimp only
      have hcheck := check_keepsPlans w .minimumElapsed (w.askedUntil name ≤ w.clock)
      exact hcheck.trans ((disarm_keepsPlans _ name .maximum).trans (handOver_keepsPlans _ name))
    · exact .refl w

theorem forceReannounceTracker_keepsPlans (w : TrackerWorld) (name : ByteString) :
    KeepsPlans w (w.forceReannounceTracker name) := by
  rw [forceReannounceTracker]
  split
  · exact .refl w
  · split
    · have hdisarm := (disarm_keepsPlans w name .minimum).trans (disarm_keepsPlans _ name .maximum)
      exact hdisarm.trans (handOver_keepsPlans _ name)
    · exact .refl w

theorem shutdownTracker_keepsPlans (w : TrackerWorld) (name : ByteString) :
    KeepsPlans w (w.shutdownTracker name) := by
  rw [shutdownTracker]
  split
  · exact .refl w
  · rename_i tracker _
    have hsend := (disarm_keepsPlans w name .maximum).trans (sendToProtocolSpace_keepsPlans _ name)
    dsimp only
    generalize (w.change name (disarm .maximum)).sendToProtocolSpace name = w₁ at hsend
    split
    · exact hsend
    · split
      · exact hsend.trans ((disarm_keepsPlans w₁ name .minimum).trans (addRequest_keepsPlans _ name))
      · exact hsend.trans (addRequest_keepsPlans w₁ name)

theorem sweep_keepsPlans {loopBody : TrackerWorld → ByteString → TrackerWorld}
    (hbody : ∀ w name, KeepsPlans w (loopBody w name)) (turns i : Nat) (cells : List ByteString)
    (w : TrackerWorld) : KeepsPlans w (sweep loopBody turns i cells w) := by
  induction turns generalizing i cells w with
  | zero => exact .refl w
  | succ turns ih =>
      rw [sweep]
      split
      · exact ih _ _ w
      · rename_i name _
        exact (hbody w name).trans (ih _ _ _)

/-! ### The start -/

/-- The plan of a tracker that a start may have sought an http url for. -/
def StartedFrom (tracker tracker' : Tracker) : Prop :=
  tracker'.plan = tracker.plan ∨
    (tracker.context.hasHttp = true ∧ ∃ sought, tracker.seekHttp = some sought ∧ tracker'.plan = sought.plan)

/-- Some of the trackers have been started. -/
structure StartsPlans (w w' : TrackerWorld) : Prop where
  keys : w'.keys = w.keys
  plans : ∀ n tracker', w'.find n = some tracker' →
    ∃ tracker, w.find n = some tracker ∧ StartedFrom tracker tracker'
  requests : w'.requests = w.requests

theorem StartsPlans.trans (h : StartsPlans w w₁) (h' : KeepsPlans w₁ w')
    (hrequests : w'.requests = w₁.requests) : StartsPlans w w' where
  keys := h'.keys.trans h.keys
  plans n tracker' hfind := by
    obtain ⟨tracker₁, hfind₁, hplan₁⟩ := h'.plans n tracker' hfind
    obtain ⟨tracker, hfind, hstarted⟩ := h.plans n tracker₁ hfind₁
    refine ⟨tracker, hfind, ?_⟩
    rw [StartedFrom, hplan₁]
    exact hstarted
  requests := hrequests.trans h.requests

theorem requests_check (w : TrackerWorld) (c : TrackerCheck) (expected : Prop) [Decidable expected] :
    (w.check c expected).requests = w.requests := by
  unfold check
  split
  · rfl
  · rfl

/-- A tracker is started as it was found. -/
theorem StartsPlans.addTracker {entry : ByteString × Tracker} (h : StartsPlans w w₁)
    (hfind : w.find entry.1 = some entry.2) (hadd : w₁.addTracker entry = some w') : StartsPlans w w' := by
  rw [TrackerWorld.addTracker] at hadd
  split at hadd
  · rename_i hhttp
    obtain ⟨sought, hsought, heq⟩ := Option.map_eq_some_iff.mp hadd
    have hchecked := h.trans (check_keepsPlans w₁ .startOutstanding (entry.1 ∉ w₁.requests))
      (requests_check _ _ _)
    generalize w₁.check .startOutstanding (entry.1 ∉ w₁.requests) = w₂ at heq hchecked
    cases heq
    refine ⟨?_, fun n tracker' hn => ?_, hchecked.requests⟩
    · exact (TrackerManager.keys_store _ _).trans hchecked.keys
    · rw [find, TrackerManager.find_store_eq] at hn
      split at hn
      · rename_i heq
        obtain ⟨before, -, hstored⟩ := Option.map_eq_some_iff.mp hn
        refine ⟨entry.2, by rwa [heq], Or.inr ⟨hhttp, sought, hsought, ?_⟩⟩
        rw [← hstored]
        rfl
      · exact hchecked.plans n tracker' hn
  · cases hadd
    exact h

theorem StartsPlans.foldlM_addTracker {entries : List (ByteString × Tracker)} (h : StartsPlans w w₁)
    (hentries : ∀ entry ∈ entries, w.find entry.1 = some entry.2)
    (hadd : entries.foldlM TrackerWorld.addTracker w₁ = some w') : StartsPlans w w' := by
  induction entries generalizing w₁ with
  | nil =>
      cases hadd
      exact h
  | cons entry entries ih =>
      rw [List.foldlM_cons] at hadd
      obtain ⟨next, hnext, hrest⟩ := Option.bind_eq_some_iff.mp hadd
      have hstarted := h.addTracker (hentries entry List.mem_cons_self) hnext
      exact ih hstarted (fun entry hentry => hentries entry (List.mem_cons_of_mem _ hentry)) hrest

theorem find_of_mem_connections (hkeys : w.keys.Nodup) {entry : ByteString × Tracker}
    (h : entry ∈ w.manager.trackerConnections) : w.find entry.1 = some entry.2 := by
  rw [find, TrackerManager.find]
  rw [keys] at hkeys
  generalize w.manager.trackerConnections = entries at h hkeys
  induction entries with
  | nil => cases h
  | cons first entries ih =>
      rw [List.map_cons, List.nodup_cons] at hkeys
      rcases List.mem_cons.mp h with heq | hrest
      · rw [heq, List.lookup_cons_self]
      · have hne : (entry.1 == first.1) = false := by
          rw [beq_eq_false_iff_ne]
          intro hsame
          exact hkeys.1 (hsame ▸ List.mem_map_of_mem hrest)
        rw [List.lookup_cons, hne]
        exact ih hrest hkeys.2

theorem startTracker_keepsPlans (w : TrackerWorld) (name : ByteString) :
    KeepsPlans w (w.startTracker name) ∧ (w.startTracker name).requests = w.requests := by
  rw [startTracker]
  split
  · exact ⟨.refl w, rfl⟩
  · rename_i tracker _
    have hstate := check_keepsPlans w .startState (tracker.state = .null)
    have htimers := check_keepsPlans (w.check .startState (tracker.state = .null)) .startTimers
      (tracker.timers.type = .one)
    refine ⟨hstate.trans (htimers.trans (change_keepsPlans _ name fun _ => rfl)), ?_⟩
    exact (requests_check _ _ _).trans (requests_check _ _ _)

theorem foldl_startTracker_keepsPlans (names : List ByteString) (w : TrackerWorld) :
    KeepsPlans w (names.foldl startTracker w) ∧ (names.foldl startTracker w).requests = w.requests := by
  induction names generalizing w with
  | nil => exact ⟨.refl w, rfl⟩
  | cons name names ih =>
      obtain ⟨hfirst, hrequests⟩ := startTracker_keepsPlans w name
      obtain ⟨hrest, hrequests'⟩ := ih (w.startTracker name)
      exact ⟨hfirst.trans hrest, hrequests'.trans hrequests⟩

theorem startEvent_startsPlans (hkeys : w.keys.Nodup) (h : w.startEvent = some w') : StartsPlans w w' := by
  rw [startEvent] at h
  obtain ⟨w₁, hpopulate, heq⟩ := Option.map_eq_some_iff.mp h
  have hbegun : StartsPlans w w :=
    ⟨rfl, fun n tracker hfind => ⟨tracker, hfind, Or.inl rfl⟩, rfl⟩
  have hpopulated := hbegun.foldlM_addTracker (fun entry => find_of_mem_connections hkeys) hpopulate
  obtain ⟨hrest, hrequests⟩ := foldl_startTracker_keepsPlans w₁.space w₁
  rw [← heq]
  exact hpopulated.trans hrest hrequests

/-! ### The end of a request -/

/-- Whether the handlers take a response for a failure. -/
def fails : Option (List Byte) → Bool
  | none => true
  | some [] => true
  | some data =>
      match Decode.input data with
      | some (.dictionary parse _) => contains "failure reason" parse
      | _ => false

/-- The tracker as one of the two handlers gets it. -/
def Answering (tracker before : Tracker) : Prop :=
  ∃ data online, before = { tracker with data, context := { tracker.context with online } }

/-- The tracker with a response, as `do_on_success` parses it. -/
def received (tracker : Tracker) (data : List Byte) : Tracker :=
  { tracker with data, context := { tracker.context with online := true } }

/-- What becomes of the manager at the end of a request. -/
inductive Ended (env : TrackerEnvironment) (manager : TrackerManager) (name : ByteString)
    (body : Option (List Byte)) (tracker : Tracker) : TrackerManager → Prop
  | erased : (∃ data, body = some data ∧ Decode.input data = none) →
      Ended env manager name body tracker (manager.erase tracker.announceUrl.domainName)
  | failed {before after : Tracker} {manager' : TrackerManager} : fails body = true →
      Answering tracker before →
      inactiveStateHandler env name manager before = .ok (manager', after) →
      Ended env manager name body tracker (manager'.store name after)
  | succeeded {after : Tracker} {manager' : TrackerManager} {data : List Byte} {parse : Dictionary}
      {p : SourceStats} : fails body = false → body = some data →
      Decode.input data = some (.dictionary parse p) →
      activeStateHandler env name manager (received tracker data) parse = .ok (manager', after) →
      Ended env manager name body tracker (manager'.store name after)

theorem respond_ended {manager' : TrackerManager} (h : w.respond env name tracker body = .ok manager') :
    Ended env w.manager name body tracker manager' := by
  cases body with
  | none =>
      obtain ⟨⟨m, after⟩, hhandler, hrest⟩ := Except.bind_eq_ok.mp h
      cases hrest
      exact .failed rfl ⟨tracker.data, false, rfl⟩ hhandler
  | some data =>
      rw [respond, TrackerManager.doOnSuccess] at h
      dsimp only at h
      split at h
      · rename_i hempty
        obtain ⟨⟨m, after⟩, hhandler, hrest⟩ := Except.bind_eq_ok.mp h
        cases hrest
        exact .failed (by rw [hempty]; rfl) ⟨data, true, rfl⟩ hhandler
      · rename_i hbody
        split at h
        · rename_i hinput
          cases h
          exact .erased ⟨data, rfl, hinput⟩
        · rename_i parse hinput
          obtain ⟨parsedDict, hdict, hrest⟩ := Except.bind_eq_ok.mp h
          obtain ⟨p, rfl⟩ := Data.getAsDictionary_eq_ok.mp hdict
          have hfails : fails (some data) = contains "failure reason" parsedDict := by
            cases data with
            | nil => exact absurd rfl hbody
            | cons b data =>
                rw [fails, hinput]
                exact List.cons_ne_nil b data
          split at hrest
          · rename_i hfailure
            obtain ⟨⟨m, after⟩, hhandler, hdone⟩ := Except.bind_eq_ok.mp hrest
            cases hdone
            exact .failed (hfails.trans hfailure) ⟨data, true, rfl⟩ hhandler
          · rename_i hsuccess
            rw [Bool.not_eq_true] at hsuccess
            obtain ⟨⟨m, after⟩, hhandler, hdone⟩ := Except.bind_eq_ok.mp hrest
            cases hdone
            exact .succeeded (hfails.trans hsuccess) rfl hinput hhandler

/-! ### Steps -/

/-- The three things that a step may do to the plans. -/
inductive Replans (env : TrackerEnvironment) (w : TrackerWorld) : TrackerEvent → TrackerWorld → Prop
  | keeps {e : TrackerEvent} {w' : TrackerWorld} : (∀ name body, e ≠ .finished name body) →
      KeepsPlans w w' → Replans env w e w'
  | starts {e : TrackerEvent} {w' : TrackerWorld} : (∀ name body, e ≠ .finished name body) →
      StartsPlans w w' → Replans env w e w'
  | ends {name : ByteString} {body : Option (List Byte)} {tracker : Tracker} {manager' : TrackerManager}
      {w' : TrackerWorld} : w.find name = some tracker → name ∈ w.requests →
      Ended env w.manager name body tracker manager' →
      w'.manager = manager'.change name clearData → w'.requests = w.requests.filter (· ≠ name) →
      Replans env w (.finished name body) w'

theorem KeepsPlans.elapse (time : Rat) (hconnections : w'.manager.trackerConnections =
    w.manager.trackerConnections.map fun entry => (entry.1, entry.2.elapse time))
    (hrequests : w'.requests = w.requests) : KeepsPlans w w' where
  keys := by
    rw [TrackerWorld.keys, TrackerWorld.keys, hconnections, List.map_map]
    rfl
  plans n tracker' h := by
    rw [find, TrackerManager.find, hconnections, lookup_map_snd (Tracker.elapse time)] at h
    obtain ⟨tracker, hfind, heq⟩ := Option.map_eq_some_iff.mp h
    exact ⟨tracker, hfind, by rw [← heq]; rfl⟩
  requests n hmem := by
    rw [hrequests] at hmem
    exact Or.inl hmem

theorem runHandler_replans (hkeys : w.keys.Nodup) (h : w.runHandler e = some w') :
    KeepsPlans w w' ∨ StartsPlans w w' := by
  rw [runHandler] at h
  split at h
  · cases h
    exact Or.inl (.refl w)
  · rename_i call _
    cases call with
    | start => exact Or.inr (startEvent_startsPlans hkeys h)
    | reannounce =>
        cases h
        exact Or.inl (sweep_keepsPlans reannounceTracker_keepsPlans _ _ _ w)
    | forceReannounce =>
        cases h
        exact Or.inl (sweep_keepsPlans forceReannounceTracker_keepsPlans _ _ _ w)
    | shutdown =>
        cases h
        exact Or.inl (sweep_keepsPlans shutdownTracker_keepsPlans _ _ _ w)

/-- **Step lemma.** -/
theorem step_replans (hkeys : w.keys.Nodup) (hstep : w.step env e = some w') : Replans env w e w' := by
  cases e with
  | signal e =>
      obtain ⟨loop, -, hrest⟩ := Option.bind_eq_some_iff.mp hstep
      obtain ⟨w₁, hrun, hw'⟩ := Option.bind_eq_some_iff.mp hrest
      have hinstall : KeepsPlans w₁ w' ∧ w'.requests = w₁.requests := by
        cases hw'
        exact ⟨.of_same rfl rfl, rfl⟩
      rcases runHandler_replans hkeys hrun with hkeeps | hstarts
      · exact .keeps (fun _ _ h => TrackerEvent.noConfusion h) (hkeeps.trans hinstall.1)
      · exact .starts (fun _ _ h => TrackerEvent.noConfusion h) (hstarts.trans hinstall.1 hinstall.2)
  | timerExpires name which =>
      obtain ⟨tracker, -, hrest⟩ := Option.bind_eq_some_iff.mp hstep
      split at hrest
      · cases hrest
        exact .keeps (fun _ _ h => TrackerEvent.noConfusion h)
          (trackerTimeoutHandler_keepsPlans w name which)
      · cases hrest
  | finished name body =>
      obtain ⟨tracker, hfind, hrest⟩ := Option.bind_eq_some_iff.mp hstep
      split at hrest
      · rename_i hidle
        obtain ⟨manager', hrespond, hw'⟩ := Option.bind_eq_some_iff.mp hrest
        cases hok : w.respond env name tracker body with
        | error fault =>
            rw [hok] at hrespond
            cases hrespond
        | ok manager₁ =>
            rw [hok] at hrespond
            cases hrespond
            cases hw'
            exact .ends hfind hidle.2 (respond_ended hok) rfl rfl
      · cases hrest
  | elapse time =>
      rw [step] at hstep
      split at hstep
      · cases hstep
        exact .keeps (fun _ _ h => TrackerEvent.noConfusion h) (.elapse time rfl rfl)
      · cases hstep
  | consume count =>
      cases hstep
      exact .keeps (fun _ _ h => TrackerEvent.noConfusion h) (.of_same rfl rfl)

end TrackerWorld

end TorrentEngine
