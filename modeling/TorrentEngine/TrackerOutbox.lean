import TorrentEngine.PeerFormats
import TorrentEngine.TrackerMoves

/-! What the trackers put into the queue of discoveries: the contacts that a successful response names, as many as
there is room for. No other step of the tracker manager adds to the queue or sends its signal. -/

open Transition

namespace TorrentEngine

open Bencode Tracker

namespace Tracker

variable {env : TrackerEnvironment}

/-! ### The contacts of a response -/

/-- The contacts of a list of peers, without the entries that are skipped. -/
def listedPeers (env : TrackerEnvironment) (peers : List Data) : List PeerContact :=
  peers.filterMap fun peer => (listPeer env peer).toOption.join

def responsePeers (env : TrackerEnvironment) (parse : Dictionary) : List PeerContact :=
  match Bencode.find "peers" parse with
  | some (.string peerBinaries _) =>
      if peerBinaries.bytes = [] ∨ peerBinaries.size % peer4UnitLength ≠ 0 then []
      else compactPeers peerBinaries.bytes
  | some (.list peerList _) => listedPeers env peerList
  | _ => []

/-- The contacts that a body names. -/
def contactsIn (env : TrackerEnvironment) (body : List Byte) : List PeerContact :=
  match Decode.input body with
  | some (.dictionary parse _) =>
      if Bencode.contains "failure reason" parse then [] else responsePeers env parse
  | _ => []

theorem pushListPeers_listed {peers : List Data} {queued queued' : List PeerContact × Bool}
    (h : pushListPeers env peers queued = .ok queued') :
    queued' = (listedPeers env peers).foldl pushDiscovery queued := by
  induction peers generalizing queued with
  | nil =>
      cases h
      rfl
  | cons peer peers ih =>
      rw [pushListPeers] at h
      obtain ⟨contact, hcontact, hrest⟩ := Except.bind_eq_ok.mp h
      rw [listedPeers, List.filterMap_cons, hcontact]
      cases contact with
      | none => exact ih hrest
      | some contact => exact ih hrest

theorem pushPeers_response {parse : Dictionary} {discoveries : List PeerContact}
    {queued : Option (List PeerContact × Bool)} (h : pushPeers env parse discoveries = .ok queued) :
    queued.getD (discoveries, false) = (responsePeers env parse).foldl pushDiscovery (discoveries, false) := by
  rw [pushPeers] at h
  rw [responsePeers]
  split at h
  · rename_i hfind
    cases h
    rw [hfind]
    rfl
  · rename_i peerBinaries _ hfind
    rw [hfind]
    simp only
    split at h
    · rename_i hunusable
      cases h
      rw [if_pos hunusable]
      rfl
    · rename_i husable
      cases h
      rw [if_neg husable]
      rfl
  · rename_i peerList _ hfind
    rw [hfind]
    obtain ⟨queued', hqueued, hrest⟩ := Except.bind_eq_ok.mp h
    cases hrest
    exact pushListPeers_listed hqueued
  · rename_i value hstring hlist hfind
    cases h
    rw [hfind]
    cases value with
    | string bytes stats => exact absurd rfl (hstring bytes stats)
    | list items stats => exact absurd rfl (hlist items stats)
    | integer value stats => rfl
    | dictionary pairs stats => rfl

/-- The consumer is notified of what was pushed, and of nothing else. -/
theorem foldl_pushDiscovery_notifies (contacts : List PeerContact) (queued : List PeerContact × Bool)
    (h : (contacts.foldl pushDiscovery queued).2 = true) :
    queued.2 = true ∨ contacts.take (discoveriesCapacity - queued.1.length) ≠ [] := by
  induction contacts generalizing queued with
  | nil => exact Or.inl h
  | cons contact contacts ih =>
      by_cases hroom : queued.1.length < discoveriesCapacity
      · refine Or.inr ?_
        obtain ⟨free, hfree⟩ := Nat.exists_eq_succ_of_ne_zero (Nat.sub_ne_zero_of_lt hroom)
        rw [hfree, List.take_succ_cons]
        exact List.cons_ne_nil _ _
      · rw [List.foldl_cons, pushDiscovery, if_neg hroom] at h
        rcases ih queued h with hnotified | htaken
        · exact Or.inl hnotified
        · rw [Nat.sub_eq_zero_of_le (Nat.le_of_not_lt hroom)] at htaken
          exact absurd rfl htaken

end Tracker

namespace TrackerManager

variable {env : TrackerEnvironment} {manager manager' : TrackerManager} {this : ByteString} {tracker : Tracker}
  {contacts : List PeerContact}

/-- The queue of discoveries, and whether its signal was sent. -/
def outbox (manager : TrackerManager) : List PeerContact × Bool :=
  (manager.discoveries, manager.consumerSignalled)

/-- These contacts were pushed, as many as there was room for, and the signal was sent if there was any. -/
structure Pushes (manager : TrackerManager) (contacts : List PeerContact) (manager' : TrackerManager) : Prop where
  discoveries : manager'.discoveries =
    manager.discoveries ++ contacts.take (discoveriesCapacity - manager.discoveries.length)
  signalled : manager'.consumerSignalled = true → manager.consumerSignalled = true ∨
    contacts.take (discoveriesCapacity - manager.discoveries.length) ≠ []

theorem Pushes.none (h : manager'.outbox = manager.outbox) : Pushes manager [] manager' := by
  obtain ⟨hdiscoveries, hsignalled⟩ := Prod.mk.inj h
  refine ⟨?_, fun hsent => Or.inl (hsignalled ▸ hsent)⟩
  rw [hdiscoveries, List.take_nil, List.append_nil]

theorem Pushes.trans_outbox {manager'' : TrackerManager} (h : Pushes manager contacts manager')
    (houtbox : manager''.outbox = manager'.outbox) : Pushes manager contacts manager'' := by
  obtain ⟨hdiscoveries, hsignalled⟩ := Prod.mk.inj houtbox
  exact ⟨hdiscoveries.trans h.discoveries, fun hsent => h.signalled (hsignalled ▸ hsent)⟩

theorem outbox_finish (this : ByteString) (manager : TrackerManager) (tracker : Tracker) :
    (finish this manager tracker).1.outbox = manager.outbox := by
  unfold finish
  split <;> rfl

theorem outbox_inactiveStateHandler {result : TrackerManager × Tracker}
    (h : inactiveStateHandler env this manager tracker = .ok result) : result.1.outbox = manager.outbox := by
  rw [inactiveStateHandler] at h
  obtain ⟨sought, -, hrest⟩ := Except.bind_eq_ok.mp h
  cases hrest
  exact outbox_finish _ _ _

theorem activeStateHandler_pushes {parse : Dictionary} {result : TrackerManager × Tracker}
    (h : activeStateHandler env this manager tracker parse = .ok result) :
    Pushes manager (responsePeers env parse) result.1 := by
  rw [activeStateHandler] at h
  obtain ⟨⟨tracker₃, queued⟩, hread, hrest⟩ := Except.bind_eq_ok.mp h
  obtain ⟨_, _, -, -, -, hpush⟩ := readResponse_eq_ok.mp hread
  have hresponse := pushPeers_response hpush
  have hqueue := foldl_pushDiscovery (responsePeers env parse) (manager.discoveries, false)
  have hnotify := foldl_pushDiscovery_notifies (responsePeers env parse) (manager.discoveries, false)
  rw [← hresponse] at hqueue hnotify
  cases queued with
  | none =>
      cases hrest
      exact ⟨hqueue, fun hsent => Or.inl hsent⟩
  | some queued =>
      cases hrest
      refine Pushes.trans_outbox ⟨hqueue, fun hsent => ?_⟩ (outbox_finish _ _ _)
      rcases Bool.or_eq_true _ _ ▸ hsent with hnotified | hbefore
      · exact (hnotify hnotified).elim Bool.noConfusion Or.inr
      · exact Or.inl hbefore

/-- A response names no contacts and leaves the queue alone, or it is one for `active_state_handler`. -/
theorem doOnSuccess_outbox (h : manager.doOnSuccess env this tracker = .ok manager') :
    (contactsIn env tracker.data = [] ∧ manager'.outbox = manager.outbox) ∨
      ∃ parse tracker' result, contactsIn env tracker.data = responsePeers env parse ∧
        activeStateHandler env this manager tracker' parse = .ok result ∧
        manager'.outbox = result.1.outbox := by
  rw [doOnSuccess] at h
  dsimp only at h
  rw [contactsIn]
  split at h
  · rename_i hempty
    obtain ⟨⟨manager₁, tracker₁⟩, hinactive, hrest⟩ := Except.bind_eq_ok.mp h
    cases hrest
    rw [hempty]
    exact Or.inl ⟨rfl, outbox_inactiveStateHandler hinactive⟩
  · split at h
    · rename_i hdecode
      cases h
      rw [hdecode]
      exact Or.inl ⟨rfl, rfl⟩
    · rename_i parse hdecode
      rw [hdecode]
      obtain ⟨parsedDict, hdictionary, hrest⟩ := Except.bind_eq_ok.mp h
      obtain ⟨stats, rfl⟩ := Data.getAsDictionary_eq_ok.mp hdictionary
      simp only
      split at hrest
      · rename_i hfailure
        obtain ⟨⟨manager₁, tracker₁⟩, hinactive, hstored⟩ := Except.bind_eq_ok.mp hrest
        cases hstored
        rw [if_pos hfailure]
        exact Or.inl ⟨rfl, outbox_inactiveStateHandler hinactive⟩
      · rename_i hfailure
        obtain ⟨result, hactive, hstored⟩ := Except.bind_eq_ok.mp hrest
        cases hstored
        rw [if_neg hfailure]
        exact Or.inr ⟨parsedDict, _, result, rfl, hactive, rfl⟩

theorem doOnSuccess_pushes (h : manager.doOnSuccess env this tracker = .ok manager') :
    Pushes manager (contactsIn env tracker.data) manager' := by
  rcases doOnSuccess_outbox h with ⟨hnone, houtbox⟩ | ⟨parse, tracker', result, hnamed, hactive, houtbox⟩
  · rw [hnone]
    exact .none houtbox
  · rw [hnamed]
    exact (activeStateHandler_pushes hactive).trans_outbox houtbox

theorem doOnFailure_outbox (h : manager.doOnFailure env this tracker = .ok manager') :
    manager'.outbox = manager.outbox := by
  rw [doOnFailure] at h
  obtain ⟨⟨manager₁, tracker₁⟩, hinactive, hrest⟩ := Except.bind_eq_ok.mp h
  cases hrest
  exact outbox_inactiveStateHandler hinactive

theorem outbox_change (manager : TrackerManager) (name : ByteString) (f : Tracker → Tracker) :
    (manager.change name f).outbox = manager.outbox := by
  rw [change]
  split <;> rfl

theorem outbox_initiatlizeTrackers {urls : List ByteString}
    (h : urls.foldlM initiatlizeTracker manager = some manager') : manager'.outbox = manager.outbox := by
  induction urls generalizing manager with
  | nil =>
      cases h
      rfl
  | cons url urls ih =>
      rw [List.foldlM_cons] at h
      obtain ⟨manager₁, hfirst, hrest⟩ := Option.bind_eq_some_iff.mp h
      rw [initiatlizeTracker] at hfirst
      obtain ⟨key, -, hkey⟩ := Option.bind_eq_some_iff.mp hfirst
      cases hkey
      exact (ih hrest).trans (outbox_change _ key (noteUrl url))

end TrackerManager

/-- The contacts that the response to a request names. -/
def TrackerEvent.named (env : TrackerEnvironment) : TrackerEvent → List PeerContact
  | .finished _ (some body) => contactsIn env body
  | _ => []

namespace TrackerWorld

variable {env : TrackerEnvironment} {w w' : TrackerWorld}

/-- The queue of discoveries, and whether its signal was sent. -/
def outbox (w : TrackerWorld) : List PeerContact × Bool := w.manager.outbox

/-! ### What the handlers leave alone -/

theorem outbox_change (w : TrackerWorld) (name : ByteString) (f : Tracker → Tracker) :
    (w.change name f).outbox = w.outbox := by
  obtain ⟨trackerConnections, heq⟩ := change_eq w name f
  rw [heq]
  rfl

theorem outbox_check (w : TrackerWorld) (c : TrackerCheck) (expected : Prop) [Decidable expected] :
    (w.check c expected).outbox = w.outbox := by
  unfold check
  split <;> rfl

theorem outbox_sendToProtocolSpace (w : TrackerWorld) (name : ByteString) :
    (w.sendToProtocolSpace name).outbox = w.outbox := by
  rw [sendToProtocolSpace]
  dsimp only
  have hcheck := outbox_check w .handOver (name ∈ w.space ∧ name ∉ w.requests)
  generalize w.check .handOver (name ∈ w.space ∧ name ∉ w.requests) = w₁ at hcheck
  split
  · rename_i last tracker _ _
    exact (outbox_change w₁ last (setManagerSpaceIdx tracker.context.managerSpaceIdx)).trans hcheck
  · exact hcheck

theorem outbox_addRequest (w : TrackerWorld) (name : ByteString) : (w.addRequest name).outbox = w.outbox := by
  rw [addRequest]
  split
  · split <;> rfl
  · rfl

theorem outbox_handOver (w : TrackerWorld) (name : ByteString) :
    ((w.sendToProtocolSpace name).addRequest name).outbox = w.outbox :=
  (outbox_addRequest _ name).trans (outbox_sendToProtocolSpace w name)

theorem outbox_trackerTimeoutHandler (w : TrackerWorld) (name : ByteString) (which : TimerName) :
    (w.trackerTimeoutHandler name which).outbox = w.outbox := by
  have hdisarm := outbox_change w name (disarm which)
  rw [trackerTimeoutHandler]
  split
  · exact hdisarm
  · split
    · exact (outbox_change _ _ _).trans hdisarm
    · exact (outbox_handOver _ name).trans hdisarm

theorem outbox_addTracker {entry : ByteString × Tracker} (h : w.addTracker entry = some w') :
    w'.outbox = w.outbox := by
  rw [addTracker] at h
  split at h
  · obtain ⟨tracker, -, rfl⟩ := Option.map_eq_some_iff.mp h
    exact outbox_check w .startOutstanding (entry.1 ∉ w.requests)
  · cases h
    rfl

theorem outbox_foldlM_addTracker {entries : List (ByteString × Tracker)}
    (h : entries.foldlM addTracker w = some w') : w'.outbox = w.outbox := by
  induction entries generalizing w with
  | nil =>
      cases h
      rfl
  | cons entry entries ih =>
      rw [List.foldlM_cons] at h
      obtain ⟨w₁, hadd, hrest⟩ := Option.bind_eq_some_iff.mp h
      exact (ih hrest).trans (outbox_addTracker hadd)

theorem outbox_startTracker (w : TrackerWorld) (name : ByteString) : (w.startTracker name).outbox = w.outbox := by
  rw [startTracker]
  split
  · rfl
  · exact (outbox_change _ _ _).trans ((outbox_check _ _ _).trans (outbox_check w _ _))

/-- A body that leaves the queue alone, done for each element of a vector. -/
theorem outbox_foldl {body : TrackerWorld → ByteString → TrackerWorld}
    (hbody : ∀ w name, (body w name).outbox = w.outbox) (names : List ByteString) (w : TrackerWorld) :
    (names.foldl body w).outbox = w.outbox := by
  induction names generalizing w with
  | nil => rfl
  | cons name names ih => exact (ih _).trans (hbody w name)

theorem outbox_sweep {body : TrackerWorld → ByteString → TrackerWorld}
    (hbody : ∀ w name, (body w name).outbox = w.outbox) (turns i : Nat) (cells : List ByteString)
    (w : TrackerWorld) : (sweep body turns i cells w).outbox = w.outbox := by
  induction turns generalizing i cells w with
  | zero => rfl
  | succ turns ih =>
      rw [sweep]
      refine (ih _ _ _).trans ?_
      split
      · rfl
      · exact hbody w _

theorem outbox_reannounceTracker (w : TrackerWorld) (name : ByteString) :
    (w.reannounceTracker name).outbox = w.outbox := by
  rw [reannounceTracker]
  split
  · rfl
  · split
    · exact (outbox_handOver _ name).trans ((outbox_change _ _ _).trans (outbox_check w _ _))
    · rfl

theorem outbox_forceReannounceTracker (w : TrackerWorld) (name : ByteString) :
    (w.forceReannounceTracker name).outbox = w.outbox := by
  rw [forceReannounceTracker]
  split
  · rfl
  · split
    · exact (outbox_handOver _ name).trans ((outbox_change _ _ _).trans (outbox_change w _ _))
    · rfl

theorem outbox_shutdownTracker (w : TrackerWorld) (name : ByteString) :
    (w.shutdownTracker name).outbox = w.outbox := by
  have hsent := (outbox_sendToProtocolSpace (w.change name (disarm .maximum)) name).trans (outbox_change w _ _)
  rw [shutdownTracker]
  split
  · rfl
  · simp only
    split
    · exact hsent
    · refine (outbox_addRequest _ name).trans ?_
      split
      · exact (outbox_change _ _ _).trans hsent
      · exact hsent

theorem outbox_handle {call : Call} (h : w.handle call = some w') : w'.outbox = w.outbox := by
  cases call with
  | start =>
      obtain ⟨w₁, hpopulate, rfl⟩ := Option.map_eq_some_iff.mp h
      exact (outbox_foldl outbox_startTracker _ w₁).trans (outbox_foldlM_addTracker hpopulate)
  | reannounce =>
      cases h
      exact outbox_sweep outbox_reannounceTracker _ _ _ w
  | forceReannounce =>
      cases h
      exact outbox_sweep outbox_forceReannounceTracker _ _ _ w
  | shutdown =>
      cases h
      exact outbox_sweep outbox_shutdownTracker _ _ _ w

/-! ### Steps -/

/-- **Only a response adds to the queue**, and what it adds are the contacts that it names. -/
theorem step_pushes {e : TrackerEvent} (hstep : w.step env e = some w') (hconsume : ∀ count, e ≠ .consume count) :
    TrackerManager.Pushes w.manager (e.named env) w'.manager := by
  cases e with
  | signal e =>
      simp only [step] at hstep
      obtain ⟨loop, -, hrest⟩ := Option.bind_eq_some_iff.mp hstep
      obtain ⟨w₁, hrun, hlast⟩ := Option.bind_eq_some_iff.mp hrest
      cases hlast
      refine .none ?_
      show w₁.outbox = w.outbox
      rw [runHandler] at hrun
      split at hrun
      · cases hrun
        rfl
      · exact outbox_handle hrun
  | timerExpires name which =>
      simp only [step] at hstep
      obtain ⟨tracker, -, hrest⟩ := Option.bind_eq_some_iff.mp hstep
      split at hrest
      · cases hrest
        exact .none (outbox_trackerTimeoutHandler w name which)
      · cases hrest
  | finished name body =>
      simp only [step] at hstep
      obtain ⟨tracker, -, hrest⟩ := Option.bind_eq_some_iff.mp hstep
      split at hrest
      case isFalse => cases hrest
      obtain ⟨manager, hrespond, hlast⟩ := Option.bind_eq_some_iff.mp hrest
      cases hlast
      cases hok : w.respond env name tracker body with
      | error fault =>
          rw [hok] at hrespond
          cases hrespond
      | ok manager' =>
          rw [hok] at hrespond
          cases hrespond
          have hclear := TrackerManager.outbox_change manager name clearData
          cases body with
          | none => exact .none (hclear.trans (TrackerManager.doOnFailure_outbox hok))
          | some body => exact (TrackerManager.doOnSuccess_pushes hok).trans_outbox hclear
  | elapse time =>
      simp only [step] at hstep
      split at hstep
      · cases hstep
        exact .none rfl
      · cases hstep
  | consume count => exact absurd rfl (hconsume count)

end TrackerWorld

end TorrentEngine
