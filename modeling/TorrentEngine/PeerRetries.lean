import TorrentEngine.PeerDisconnects
import TorrentEngine.PeerGenerations

/-! How often a peer is tried. What a step does to the count of a peer's failures, the sockets that are opened
for a peer while it keeps its slot, and that both stay below the limit on every run. -/

open Transition

namespace TorrentEngine

open PeerConnection Ledger

namespace PeerConnection

/-- The count of failures stands, and no recorded socket is given up. -/
structure KeepsFailures (p q : PeerConnection) : Prop where
  failures : q.failures = p.failures
  socket : q.tcp.socket = none → p.tcp.socket = none

/-- The count stands, or a failure is counted and the limit not reached, or the peer is torn down. -/
inductive CountsFailure (p q : PeerConnection) : Prop
  | kept : KeepsFailures p q → CountsFailure p q
  | failed : q.failures = p.failures + 1 → q.failures < 3 → CountsFailure p q
  | vacant : q.Vacant → CountsFailure p q

variable {p q r : PeerConnection}

theorem KeepsFailures.refl (p : PeerConnection) : KeepsFailures p p := ⟨rfl, id⟩

theorem KeepsFailures.trans (h : KeepsFailures p q) (h' : KeepsFailures q r) : KeepsFailures p r :=
  ⟨h'.failures.trans h.failures, fun hnone => h.socket (h'.socket hnone)⟩

theorem KeepsFailures.trans_counts (h : KeepsFailures p q) (h' : CountsFailure q r) :
    CountsFailure p r := by
  cases h' with
  | kept hkept => exact .kept (h.trans hkept)
  | failed hfailures hlt =>
      rw [h.failures] at hfailures
      exact .failed hfailures hlt
  | vacant hvacant => exact .vacant hvacant

end PeerConnection

namespace World

variable {w w₁ w₂ w' : World} {i j : ConnectionSlot} {infoHash : Vector Byte 20} {e : Event}

/-! ### What the callbacks do to the counts -/

/-- No count changes. -/
def Retains (w w' : World) : Prop := ∀ j, KeepsFailures (w.peer j) (w'.peer j)

/-- The counts change as they may in a step. -/
def Tallies (w w' : World) : Prop := ∀ j, CountsFailure (w.peer j) (w'.peer j)

theorem Retains.of_object (h : w'.pool.object = w.pool.object) : Retains w w' := by
  intro j
  have hpeer : w'.peer j = w.peer j := congrFun h j
  rw [hpeer]
  exact .refl _

theorem Retains.trans (h : Retains w w₁) (h' : Retains w₁ w') : Retains w w' := fun j =>
  (h j).trans (h' j)

theorem Retains.trans_tallies (h : Retains w w₁) (h' : Tallies w₁ w') : Tallies w w' := fun j =>
  (h j).trans_counts (h' j)

theorem Retains.tallies (h : Retains w w') : Tallies w w' := fun j => .kept (h j)

theorem peer_setPeer_of_ne (w : World) (p : PeerConnection) (hj : j ≠ i) : (w.setPeer i p).peer j = w.peer j :=
  Function.update_of_ne hj _ _

theorem Retains.setPeer (w : World) {i : ConnectionSlot} {p : PeerConnection}
    (hp : KeepsFailures (w.peer i) p) : Retains w (w.setPeer i p) := by
  intro j
  by_cases hj : j = i
  · rw [hj, peer_setPeer]
    exact hp
  · rw [peer_setPeer_of_ne w p hj]
    exact .refl _

/-- One slot is changed. -/
theorem Tallies.slot (i : ConnectionSlot) (hothers : ∀ j, j ≠ i → w'.peer j = w.peer j)
    (hi : CountsFailure (w.peer i) (w'.peer i)) : Tallies w w' := by
  intro j
  by_cases hj : j = i
  · rw [hj]
    exact hi
  · rw [hothers j hj]
    exact .kept (.refl _)

/-- A callback at work on its peer. -/
theorem Retains.of_working (h : Working w i w₁) (hfailures : (w₁.peer i).failures = (w.peer i).failures) :
    Retains w w₁ := by
  intro j
  by_cases hj : j = i
  · rw [hj]
    refine ⟨hfailures, fun hnone => ?_⟩
    rw [← h.same.socket]
    exact hnone
  · have hobject : w₁.peer j = (w.ledger.set i (w₁.peer i)).object j :=
      congrFun (congrArg Ledger.object h.ledger) j
    have hpeer : w₁.peer j = w.peer j := hobject.trans (Function.update_of_ne hj _ _)
    rw [hpeer]
    exact .refl _

theorem sendMessages_retains (w : World) (i : ConnectionSlot) (call : SendReturn) :
    Retains w (w.sendMessages i call).1 := by
  have hsent := sendMessages_sent (.replicate 20 0) w i call
  obtain ⟨perrno, sendBuffer, hpeer⟩ := hsent.peer
  exact .of_working hsent.working (by rw [hpeer])

theorem recvMessages_retains (w : World) (i : ConnectionSlot) (call : RecvReturn) :
    Retains w (w.recvMessages i call).1 := by
  have hreceived := recvMessages_received w i call
  obtain ⟨perrno, recvBuffer, hpeer⟩ := hreceived.peer
  exact .of_working hreceived.working (by rw [hpeer])

theorem encodeHandshake_retains (infoHash : Vector Byte 20) (w : World) (i : ConnectionSlot) :
    Retains w (w.encodeHandshake infoHash i) := by
  have hencoded := encodeHandshake_encoded infoHash w i
  obtain ⟨sendBuffer, cursor, hpeer⟩ := hencoded.peer
  exact .of_working hencoded.working (by rw [hpeer])

theorem sendEncoded_retains (infoHash : Vector Byte 20) (w : World) (i : ConnectionSlot)
    (call : SendReturn) : Retains w ((w.encodeHandshake infoHash i).sendMessages i call).1 :=
  (encodeHandshake_retains infoHash w i).trans (sendMessages_retains _ i call)

theorem Entered.retains (h : Entered w i w₁) : Retains w w₁ :=
  .of_working h.working (by rw [h.peer])

/-- A peer is deleted that was alone in being changed before. -/
theorem deletePeerConnection_tallies (hothers : ∀ j, j ≠ i → w₁.peer j = w.peer j) :
    Tallies w (w₁.deletePeerConnection i) := by
  refine .slot i (fun j hj => ?_) (.vacant ?_)
  · rw [← hothers j hj]
    exact Function.update_of_ne hj _ _
  · have hpeer : (w₁.deletePeerConnection i).peer i = (w₁.peer i).teardownConnection :=
      Function.update_self _ _ _
    rw [hpeer]
    exact teardownConnection_vacant _

theorem peer_singleResolved (w : World) (source : Psource) (j : ConnectionSlot) :
    (w.singleResolved source).peer j = w.peer j := by
  unfold peer
  rw [pool_singleResolved]

theorem hardDeletePeerConnection_tallies (w : World) (i : ConnectionSlot) :
    Tallies w (w.hardDeletePeerConnection i) := by
  apply deletePeerConnection_tallies
  intro j hj
  rw [peer_singleResolved]
  exact Function.update_of_ne hj _ _

/-- **`handle_peer_failure` keeps a peer only below the limit.** -/
theorem handlePeerFailure_tallies (w : World) (i : ConnectionSlot) : Tallies w (w.handlePeerFailure i) := by
  let w₁ := w.modifyPeer i fun peer => { peer with state := .failed, failures := peer.failures + 1 }
  let w₂ := w₁.closeSocket i
  let p := w₂.peer i
  let w₃ := (w₂.check .failureSource (p.source != .null)).singleResolved p.source
  have hp : p.failures = (w.peer i).failures + 1 := by
    have hpeer₁ : w₁.peer i = _ := peer_modifyPeer w i fun peer =>
      { peer with state := .failed, failures := peer.failures + 1 }
    have hpeer₂ : p = { w₁.peer i with tcp := ⟨none, noError⟩ } := peer_modifyPeer _ _ _
    rw [hpeer₂, hpeer₁]
  have hothers : ∀ j, j ≠ i → w₃.peer j = w.peer j := by
    intro j hj
    calc w₃.peer j = w₂.peer j := peer_singleResolved _ _ _
      _ = w₁.peer j := Function.update_of_ne hj _ _
      _ = w.peer j := Function.update_of_ne hj _ _
  have hfailure : w.handlePeerFailure i =
      if 3 ≤ p.failures ∨ p.source = .tcpServer then w₃.deletePeerConnection i
      else { w₃.setPeer i p.awaitRetry with statistics := w₃.statistics.incrementFailed } := rfl
  rw [hfailure]
  split
  · exact deletePeerConnection_tallies hothers
  · rename_i hretry
    have hpeer : World.peer { w₃.setPeer i p.awaitRetry with
        statistics := w₃.statistics.incrementFailed } i = p.awaitRetry := peer_setPeer w₃ i _
    refine .slot i (fun j hj => (peer_setPeer_of_ne w₃ _ hj).trans (hothers j hj)) (.failed ?_ ?_)
    · rw [hpeer]
      exact hp
    · rw [hpeer]
      exact Nat.lt_of_not_le fun hlimit => hretry (Or.inl hlimit)

theorem handlePeerConnectionAndDispatch_retains (w : World) (i : ConnectionSlot) :
    Retains w (w.handlePeerConnectionAndDispatch i) := by
  have hmodify : Retains w
      (w.modifyPeer i fun peer => { peer with state := .connected }.stopConnectionWatchers) :=
    .setPeer w ⟨rfl, id⟩
  refine hmodify.trans (.of_object ?_)
  unfold handlePeerConnectionAndDispatch
  simp only [pool_singleResolved]

theorem modifyPeerSocketWEvent_retains (w : World) (i : ConnectionSlot) (event : IoEvent) :
    Retains w (w.modifyPeer i fun peer => peer.modifyPeerSocketWEvent event) :=
  .setPeer w ⟨rfl, id⟩

/-- After a send the peer has failed, or it is kept. -/
theorem sent_tallies (ok exhausted : Bool) {next : Bool → Bool → World} (h : Retains w w₁)
    (hfailed : ∀ exhausted, next false exhausted = w₁.handlePeerFailure i)
    (hkept : ∀ exhausted, Retains w₁ (next true exhausted)) : Tallies w (next ok exhausted) := by
  apply h.trans_tallies
  cases ok with
  | false =>
      rw [hfailed]
      exact handlePeerFailure_tallies w₁ i
  | true => exact (hkept exhausted).tallies

theorem handshakeWrite_tallies (w : World) (i : ConnectionSlot) (calls : SocketCalls) :
    Tallies w (w.handshakeWrite i calls) := by
  have hsent := sendMessages_retains w i calls.send
  unfold handshakeWrite
  generalize w.sendMessages i calls.send = sent at hsent ⊢
  obtain ⟨w₁, ok, exhausted⟩ := sent
  apply sent_tallies ok exhausted hsent
  · exact fun _ => rfl
  · intro exhausted
    cases exhausted with
    | false => exact .of_object rfl
    | true =>
        simp only
        split
        · exact modifyPeerSocketWEvent_retains w₁ i .read
        · exact handlePeerConnectionAndDispatch_retains w₁ i
        · exact .of_object rfl

theorem handshakeRead_tallies (w : World) (i : ConnectionSlot) (calls : SocketCalls) :
    Tallies w (w.handshakeRead infoHash i calls) := by
  have hreceived := recvMessages_retains w i calls.recv
  unfold handshakeRead
  generalize w.recvMessages i calls.recv = received at hreceived ⊢
  obtain ⟨w₁, ok⟩ := received
  apply hreceived.trans_tallies
  cases ok with
  | false => exact handlePeerFailure_tallies w₁ i
  | true =>
      simp only
      generalize Handshake.decode (w₁.peer i).recvBuffer infoHash (w₁.peer i).contact.peerId = result
      obtain ⟨decoded, recvBuffer, peerId⟩ := result
      let w₂ := w₁.setPeer i
        { w₁.peer i with recvBuffer, contact := { (w₁.peer i).contact with peerId } }
      have hdecoded : Retains w₁ w₂ := .setPeer w₁ ⟨rfl, id⟩
      apply hdecoded.trans_tallies
      split
      · exact Retains.tallies (.of_object rfl)
      · split
        · exact hardDeletePeerConnection_tallies w₂ i
        · split
          · exact (handlePeerConnectionAndDispatch_retains w₂ i).tallies
          · exact Retains.tallies (.of_object rfl)
          · have hsent := sendEncoded_retains infoHash w₂ i calls.send
            generalize (w₂.encodeHandshake infoHash i).sendMessages i calls.send = sent at hsent ⊢
            obtain ⟨w₃, sentOk, exhausted⟩ := sent
            apply sent_tallies sentOk exhausted hsent
            · exact fun _ => rfl
            · intro exhausted
              cases exhausted with
              | false => exact modifyPeerSocketWEvent_retains w₃ i .write
              | true => exact handlePeerConnectionAndDispatch_retains w₃ i

theorem peerTransportLevelConnected_retains (w : World) (i : ConnectionSlot) (call : SockoptReturn) :
    Retains w (w.peerTransportLevelConnected i call).1 := by
  cases call with
  | failed => exact .of_object rfl
  | error error =>
      unfold peerTransportLevelConnected
      simp only
      split
      · exact .setPeer w ⟨rfl, id⟩
      · exact .of_object rfl

theorem handlePeerTransportLevelInitiations_tallies (w : World) (i : ConnectionSlot) (event : IoEvent)
    (calls : SocketCalls) : Tallies w (w.handlePeerTransportLevelInitiations infoHash i event calls) := by
  have hconnected := peerTransportLevelConnected_retains w i calls.getsockopt
  unfold handlePeerTransportLevelInitiations
  cases event with
  | read => exact Retains.tallies (.of_object rfl)
  | write =>
      simp only
      generalize w.peerTransportLevelConnected i calls.getsockopt = connected at hconnected ⊢
      obtain ⟨w₁, ok⟩ := connected
      apply hconnected.trans_tallies
      cases ok with
      | false => exact handlePeerFailure_tallies w₁ i
      | true =>
          let w₂ := w₁.modifyPeer i fun peer => { peer with state := .handshake }
          have hstate : Retains w₁ w₂ := .setPeer w₁ ⟨rfl, id⟩
          have hsent := hstate.trans (sendEncoded_retains infoHash w₂ i calls.send)
          simp only
          generalize (w₂.encodeHandshake infoHash i).sendMessages i calls.send = sent at hsent ⊢
          obtain ⟨w₃, sentOk, exhausted⟩ := sent
          apply sent_tallies sentOk exhausted hsent
          · exact fun _ => rfl
          · intro exhausted
            cases exhausted with
            | false => exact modifyPeerSocketWEvent_retains w₃ i .write
            | true => exact modifyPeerSocketWEvent_retains w₃ i .read

theorem peerSocketCallback_tallies (w : World) (i : ConnectionSlot) (revents : Revents)
    (calls : SocketCalls) : Tallies w (w.peerSocketCallback infoHash i revents calls) := by
  obtain ⟨w₁, hentered, hcallback⟩ := peerSocketCallback_entered infoHash w i revents calls
  rw [hcallback]
  apply hentered.retains.trans_tallies
  split
  · exact hardDeletePeerConnection_tallies w₁ i
  · cases revents with
    | error => exact handlePeerFailure_tallies w₁ i
    | io event =>
        simp only
        split
        · exact handlePeerTransportLevelInitiations_tallies w₁ i event calls
        · exact handlePeerTransportLevelInitiations_tallies w₁ i event calls
        · exact handlePeerTransportLevelInitiations_tallies w₁ i event calls
        · cases event with
          | write => exact handshakeWrite_tallies w₁ i calls
          | read => exact handshakeRead_tallies w₁ i calls
        · exact hardDeletePeerConnection_tallies w₁ i
        · exact hardDeletePeerConnection_tallies w₁ i

theorem peerTimerCallback_tallies (w : World) (i : ConnectionSlot) : Tallies w (w.peerTimerCallback i) := by
  have hstopped : Retains w (w.timedOut i) := .setPeer w ⟨rfl, id⟩
  rw [peerTimerCallback_eq]
  apply hstopped.trans_tallies
  split
  · exact Retains.tallies (.setPeer (w.timedOut i) ⟨rfl, id⟩)
  · exact handlePeerFailure_tallies (w.timedOut i) i

/-! ### What the turns of the loops do to the counts -/

/-- What comes of an attempt to connect. -/
structure Tried (w : World) (i : ConnectionSlot) (result : World × Bool) : Prop where
  retains : Retains w result.1
  generation : result.1.pool.generation = w.pool.generation
  started : result.2 = true →
    (result.1.peer i).tcp.socket ≠ none ∧ (result.1.peer i).forSock.active = true

theorem Retains.openFd (w : World) (fd : Fd) : Retains w (w.openFd fd) := .of_object rfl

/-- A socket is recorded, and an attempt on it begins. -/
theorem Tried.started_on {w₁ : World} {p : PeerConnection} (hretains : Retains w w₁)
    (hgeneration : w₁.pool.generation = w.pool.generation) (hfailures : p.failures = (w₁.peer i).failures)
    (hsocket : p.tcp.socket ≠ none) (hactive : p.forSock.active = true) :
    Tried w i (w₁.setPeer i p, true) := by
  refine ⟨hretains.trans (.setPeer w₁ ⟨hfailures, fun hnone => absurd hnone hsocket⟩), hgeneration,
    fun _ => ?_⟩
  show ((w₁.setPeer i p).peer i).tcp.socket ≠ none ∧ _
  rw [peer_setPeer]
  exact ⟨hsocket, hactive⟩

theorem connect_tried (w : World) (i : ConnectionSlot) (calls : ConnectCalls) :
    Tried w i (w.connect i calls) := by
  let w₀ := w.check .connectSource ((w.peer i).source == .tracker)
  have hchecked : Retains w w₀ := .of_object rfl
  have houtcome := connect_outcome w i calls
  generalize w.connect i calls = result at houtcome ⊢
  cases houtcome with
  | refused perrno => exact ⟨hchecked.trans (.setPeer w₀ ⟨rfl, id⟩), rfl, fun hfalse => Bool.noConfusion hfalse⟩
  | closed fd _ hsocket =>
      refine ⟨?_, rfl, fun hfalse => Bool.noConfusion hfalse⟩
      have hclosed : Retains w ((w₀.openFd fd).closeFd (some fd)) := .of_object rfl
      exact hclosed.trans (.setPeer _ ⟨rfl, fun _ => hsocket⟩)
  | connected fd =>
      apply Tried.started_on (hchecked.trans (.openFd w₀ fd))
      · rfl
      · rfl
      · exact Option.some_ne_none fd
      · rfl
  | inprogress fd =>
      apply Tried.started_on (hchecked.trans (.openFd w₀ fd))
      · rfl
      · rfl
      · exact Option.some_ne_none fd
      · rfl

theorem initiateConnect_tried (w : World) (i : ConnectionSlot) (calls : ConnectCalls) :
    Tried w i (w.initiateConnect i calls) := by
  have htried := connect_tried w i calls
  unfold initiateConnect
  generalize w.connect i calls = result at htried ⊢
  obtain ⟨w₁, started⟩ := result
  cases started with
  | true => exact ⟨htried.retains.trans (.of_object rfl), htried.generation, htried.started⟩
  | false => exact htried

theorem schedulerReturns_retains (w : World) (found : Bool) : Retains w (w.schedulerReturns found) :=
  .of_object (by rw [pool_schedulerReturns])

/-- After the attempt the peer is deleted, or it is in flight. -/
theorem afterInitiate_cases (w : World) (i : ConnectionSlot) (calls : ConnectCalls) :
    Tallies w (afterInitiate i (w.initiateConnect i calls)) ∧
      ((afterInitiate i (w.initiateConnect i calls)).pool.generation i = w.pool.generation i + 1 ∨
        ((afterInitiate i (w.initiateConnect i calls)).peer i).tcp.socket ≠ none ∧
          ((afterInitiate i (w.initiateConnect i calls)).peer i).forSock.active = true ∧
            ((afterInitiate i (w.initiateConnect i calls)).peer i).failures = (w.peer i).failures) := by
  have htried := initiateConnect_tried w i calls
  generalize w.initiateConnect i calls = result at htried ⊢
  obtain ⟨w₁, started⟩ := result
  cases started with
  | true =>
      have hreturned : Retains w (w₁.schedulerReturns true) :=
        htried.retains.trans (schedulerReturns_retains w₁ true)
      have hpeer : (w₁.schedulerReturns true).peer i = w₁.peer i := by
        unfold peer
        rw [pool_schedulerReturns]
      refine ⟨hreturned.tallies, Or.inr ⟨?_, ?_, (hreturned i).failures⟩⟩
      · show ((w₁.schedulerReturns true).peer i).tcp.socket ≠ none
        rw [hpeer]
        exact (htried.started rfl).1
      · show ((w₁.schedulerReturns true).peer i).forSock.active = true
        rw [hpeer]
        exact (htried.started rfl).2
  | false =>
      refine ⟨htried.retains.trans_tallies (deletePeerConnection_tallies fun _ _ => rfl), Or.inl ?_⟩
      have hgeneration : w₁.pool.generation = w.pool.generation := htried.generation
      have hbump : (w₁.deletePeerConnection i).pool.generation i = w₁.pool.generation i + 1 :=
        Function.update_self _ _ _
      rw [← hgeneration]
      exact hbump

theorem discoveredTurn_tallies (w : World) (calls : ConnectCalls) : Tallies w (w.discoveredTurn calls) := by
  unfold discoveredTurn
  split
  · exact (schedulerReturns_retains w false).tallies
  · rename_i contact cache hpop
    unfold schedulePeer
    split
    · refine Retains.tallies (.of_object ?_)
      rw [pool_schedulerReturns]
      rfl
    · rename_i x pool' hacquire
      have hobject : pool'.object = w.pool.object := by
        unfold SlotPool.acquire at hacquire
        split at hacquire
        · cases hacquire
        · cases hacquire
          rfl
      split
      · exact Retains.tallies (.of_object hobject)
      · let w₁ : World := { w with
          cache, statistics := w.statistics.decrementIpv4AddrInCache, pool := pool' }
        have hacquired : Retains w w₁ := .of_object hobject
        have hinitialized : Retains w₁ (w₁.initializeDiscovered x contact) :=
          Retains.trans (.of_object rfl) (.setPeer { w₁ with
            peers := Function.update w₁.peers contact.endpoint (some x) } ⟨rfl, id⟩)
        exact (hacquired.trans hinitialized).trans_tallies (afterInitiate_cases _ x calls).1

theorem failedTurn_tallies (w : World) (calls : ConnectCalls) : Tallies w (w.failedTurn calls) := by
  unfold failedTurn
  split
  · exact (schedulerReturns_retains w false).tallies
  · rename_i r rs hqueue
    simp only
    split
    · exact Retains.tallies (.of_object rfl)
    · have hpopped : Retains w { w with
          retryQueue := rs, statistics := w.statistics.decrementPeersInRetry } := .of_object rfl
      exact hpopped.trans_tallies (afterInitiate_cases _ r.connection calls).1

/-- A peer whose session has ended is deleted, and no other is touched. -/
theorem disconnectedTurn_tallies (h : w.InOrder) (calls : ConnectCalls) :
    Tallies w (w.disconnectedTurn calls) := by
  cases hqueue : w.disconnects with
  | nil =>
      unfold disconnectedTurn
      rw [hqueue]
      exact (schedulerReturns_retains w false).tallies
  | cons d ds =>
      by_cases hcurrent : w.pool.generation d.peer = d.generation
      · have hmarked : ∀ j, j ≠ d.peer → (w.popDisconnect d ds).peer j = w.peer j := fun j hj =>
          Function.update_of_ne hj _ _
        have hcounted : ∀ j, j ≠ d.peer → (w.countDisconnect d ds).peer j = w.peer j := fun j hj =>
          (Function.update_of_ne hj _ _).trans (hmarked j hj)
        rw [disconnectedTurn_current hqueue hcurrent]
        split
        · exact deletePeerConnection_tallies hmarked
        · have hrecorded : ((w.countDisconnect d ds).peer d.peer).tcp.socket ≠ none := by
            rw [peer_countDisconnect]
            exact (connected_of_current h.registry hqueue hcurrent).socket
          rw [initiateConnect_recorded hrecorded]
          apply deletePeerConnection_tallies
          intro j hj
          rw [peer_setPeer_of_ne _ _ hj]
          exact hcounted j hj
      · rw [disconnectedTurn_stale hqueue hcurrent]
        exact Retains.tallies (.of_object rfl)

theorem peer_replacePeer_of_ne (w : World) (hj : j ≠ i) : (w.replacePeer i).peer j = w.peer j := by
  have hdeleted : ∀ u : World, u.peer j = w.peer j → (u.deletePeerConnection i).peer j = w.peer j :=
    fun u hu => (Function.update_of_ne hj _ _).trans hu
  unfold replacePeer
  simp only
  split
  · apply hdeleted
    rw [peer_singleResolved]
    exact Function.update_of_ne hj _ _
  · exact hdeleted w rfl

theorem replacePeer_vacant (w : World) (i : ConnectionSlot) : ((w.replacePeer i).peer i).Vacant := by
  have hpeer : ∀ u : World, (u.deletePeerConnection i).peer i = (u.peer i).teardownConnection :=
    fun u => Function.update_self _ _ _
  unfold replacePeer
  rw [hpeer]
  exact teardownConnection_vacant _

/-- Only the peer that is managed under the endpoint has to give way. -/
theorem makeWay_peer (w : World) (endpoint : Endpoint) (j : ConnectionSlot) :
    (w.makeWay endpoint).peer j = w.peer j ∨
      ((w.makeWay endpoint).peer j).Vacant ∧ w.peers endpoint = some j := by
  unfold makeWay
  split
  · exact Or.inl rfl
  · rename_i mapped hmapped
    by_cases hj : j = mapped
    · rw [hj]
      exact Or.inr ⟨replacePeer_vacant w mapped, hmapped⟩
    · exact Or.inl (peer_replacePeer_of_ne w hj)

/-- The peer of an accepted connection keeps the count of its slot, which was free. -/
theorem acceptPeerConnection_tallies (hpool : w.pool.WellFormed) (hregistry : Registry w.ledger)
    (call : AcceptReturn) : Tallies w (w.acceptPeerConnection call).1 := by
  cases call with
  | failed errno => exact Retains.tallies (.of_object rfl)
  | accepted fd store =>
      unfold acceptPeerConnection
      simp only
      split
      · exact Retains.tallies (.of_object rfl)
      · split
        · exact Retains.tallies (.of_object rfl)
        · rename_i x pool' hacquire
          obtain ⟨-, hx, hpool'⟩ := hpool.acquire hacquire
          let w₁ : World := { w.openFd fd with
            statistics := w.statistics.incrementOutboundInflight, pool := pool' }
          let w₂ := w₁.makeWay store.contact.endpoint
          have hacquired : Retains w w₁ := by
            apply Retains.of_object
            show pool'.object = w.pool.object
            rw [hpool']
          have haccepted : Retains w₂ (w₂.initializeAccepted x fd store) :=
            Retains.trans (.of_object rfl) (.setPeer { w₂ with
              peers := Function.update w₂.peers store.contact.endpoint (some x) }
              ⟨rfl, fun hnone => absurd hnone (Option.some_ne_none fd)⟩)
          refine hacquired.trans_tallies fun j => ?_
          show CountsFailure (w₁.peer j) ((w₂.initializeAccepted x fd store).peer j)
          rcases makeWay_peer w₁ store.contact.endpoint j with hsame | ⟨hvacant, hmapped⟩
          · rw [← hsame]
            exact .kept (haccepted j)
          · have hi : w.pool.occupied j = true := ((hregistry.registered.peers_iff _ j).mp hmapped).1
            have hj : j ≠ x := by
              rintro rfl
              exact Bool.noConfusion (hi.symm.trans hx)
            have hpeer : (w₂.initializeAccepted x fd store).peer j = w₂.peer j :=
              Function.update_of_ne hj _ _
            rw [hpeer]
            exact .vacant hvacant

theorem acceptTurn_tallies (hpool : w.pool.WellFormed) (hregistry : Registry w.ledger)
    (pendingAccepts : Bool) (call : AcceptReturn) : Tallies w (w.acceptTurn pendingAccepts call) := by
  unfold acceptTurn
  split
  · have haccepted := acceptPeerConnection_tallies hpool hregistry call
    generalize w.acceptPeerConnection call = result at haccepted ⊢
    exact haccepted
  · exact Retains.tallies (.of_object rfl)

theorem establisherTurn_retains (w : World) : Retains w w.establisherTurn := by
  unfold establisherTurn
  split
  · split
    · split
      · exact schedulerReturns_retains w false
      · exact .of_object rfl
    · exact .of_object rfl
    · exact .of_object rfl
  · exact .of_object rfl

theorem drainTurn_retains (w : World) : Retains w w.drainTurn := by
  unfold drainTurn
  split
  · exact .of_object rfl
  · simp only
    split
    · exact .of_object rfl
    · exact .of_object rfl

theorem turn_tallies (h : w.InOrder) {calls : TurnCalls} (hturn : w.turn calls = some w') :
    Tallies w w' := by
  cases hcontrol : w.control with
  | eventLoop =>
      rw [turn, hcontrol] at hturn
      cases hturn
  | draining =>
      rw [turn, hcontrol] at hturn
      cases hturn
      exact (drainTurn_retains w).tallies
  | establishing =>
      rw [turn, hcontrol] at hturn
      cases hturn
      exact (establisherTurn_retains w).tallies
  | discovering =>
      rw [turn, hcontrol] at hturn
      cases hturn
      exact discoveredTurn_tallies w calls.connect
  | reconnecting =>
      rw [turn, hcontrol] at hturn
      cases hturn
      exact disconnectedTurn_tallies h calls.connect
  | retrying =>
      rw [turn, hcontrol] at hturn
      cases hturn
      exact failedTurn_tallies w calls.connect
  | accepting pendingAccepts =>
      rw [turn, hcontrol] at hturn
      cases hturn
      exact acceptTurn_tallies h.pool h.registry pendingAccepts calls.accept

/-- **Every step counts failures below the limit.** -/
theorem step_tallies (h : w.InOrder) (hstep : w.step infoHash e = some w') : Tallies w w' := by
  cases e with
  | discover contact =>
      cases hstep
      exact Retains.tallies (.of_object rfl)
  | setEndpoint =>
      simp only [step] at hstep
      split at hstep
      · cases hstep
      · cases hstep
        exact Retains.tallies (.of_object rfl)
  | endpointDisconnected session perrno =>
      simp only [step] at hstep
      split at hstep
      · cases hstep
      · cases hstep
        exact Retains.tallies (.of_object rfl)
  | drainDiscovered | notifyDisconnected | runDaemon | serverSocketCallback =>
      simp only [step] at hstep
      split at hstep
      · cases hstep
        exact Retains.tallies (.of_object rfl)
      · cases hstep
  | timerExpires i =>
      simp only [step] at hstep
      split at hstep
      · cases hstep
        exact peerTimerCallback_tallies w i
      · cases hstep
  | socketReady i revents calls =>
      simp only [step] at hstep
      split at hstep
      · cases hstep
        exact peerSocketCallback_tallies w i revents calls
      · cases hstep
  | turn calls =>
      simp only [step] at hstep
      split at hstep
      · exact turn_tallies h hstep
      · cases hstep

/-- No peer has failed as often as the limit. -/
theorem failures_lt (h : (managerMachine infoHash).Reachable w) (i : ConnectionSlot) :
    (w.peer i).failures < 3 := by
  have hinvariant : w.InOrder ∧ ∀ i, (w.peer i).failures < 3 := by
    refine Machine.Reachable.invariant (fun w => w.InOrder ∧ ∀ i, (w.peer i).failures < 3) ?_ ?_ h
    · rintro w rfl
      exact ⟨initial_inOrder, fun _ => Nat.zero_lt_succ 2⟩
    · rintro w e w' ⟨horder, hlt⟩ hstep
      refine ⟨horder.step hstep, fun i => ?_⟩
      cases step_tallies horder hstep i with
      | kept hkept =>
          rw [hkept.failures]
          exact hlt i
      | failed _ hfailed => exact hfailed
      | vacant hvacant =>
          rw [hvacant.failures]
          exact Nat.zero_lt_succ 2
  exact hinvariant.2 i

/-! ### The sockets opened for a peer -/

/-- Where a turn of a scheduler calls `initiate_connect`: the state, and the slot of the peer. -/
def attempt (w : World) : Option (World × ConnectionSlot) :=
  match w.control with
  | .discovering =>
      match w.cache.freshPop with
      | none => none
      | some (newEndpoint, cache) =>
          match w.pool.acquire with
          | none => none
          | some (acquiredSlot, pool) =>
              match w.peers newEndpoint.endpoint with
              | some _ => none
              | none =>
                  some ({ w with cache, pool, statistics := w.statistics.decrementIpv4AddrInCache
                    }.initializeDiscovered acquiredSlot newEndpoint, acquiredSlot)
  | .reconnecting =>
      match w.disconnects with
      | [] => none
      | d :: ds =>
          if w.pool.generation d.peer = d.generation then
            if (w.peer d.peer).tcp.perrno = peerShutdown ∨ (w.peer d.peer).source = .tcpServer then none
            else some (w.countDisconnect d ds, d.peer)
          else none
  | .retrying =>
      match w.retryQueue with
      | [] => none
      | failedPeer :: retryQueue =>
          if w.pool.generation failedPeer.connection = failedPeer.cachedGeneration then
            some ({ w with retryQueue, statistics := w.statistics.decrementPeersInRetry },
              failedPeer.connection)
          else none
  | _ => none

/-- The slot of the peer that a step opens a socket for. -/
def opens (w : World) : Event → Option ConnectionSlot
  | .turn calls =>
      match w.attempt with
      | none => none
      | some (u, i) =>
          if (u.openSocket i (u.peer i).store.saFamily calls.connect.socket).2 then some i else none
  | _ => none

/-- How many sockets the steps open for the peer that a slot has in a generation. -/
def socketsOpened (infoHash : Vector Byte 20) (i : ConnectionSlot) (generation : Nat) :
    World → List Event → Nat
  | _, [] => 0
  | w, e :: es =>
      match w.step infoHash e with
      | none => 0
      | some w' =>
          (if w.opens e = some i ∧ w.pool.generation i = generation then 1 else 0) +
            socketsOpened infoHash i generation w' es

/-- A turn with an attempt is that attempt and what follows it. -/
theorem turn_attempt {u : World} (hattempt : w.attempt = some (u, i)) (calls : TurnCalls) :
    w.turn calls = some (afterInitiate i (u.initiateConnect i calls.connect)) := by
  unfold attempt at hattempt
  cases hcontrol : w.control with
  | eventLoop | draining | establishing =>
      rw [hcontrol] at hattempt
      cases hattempt
  | accepting pendingAccepts =>
      rw [hcontrol] at hattempt
      cases hattempt
  | discovering =>
      simp only [hcontrol] at hattempt
      split at hattempt
      · cases hattempt
      · rename_i newEndpoint cache hpop
        split at hattempt
        · cases hattempt
        · rename_i x pool' hacquire
          split at hattempt
          · cases hattempt
          · rename_i hunmapped
            cases hattempt
            rw [turn, hcontrol, discoveredTurn, hpop]
            simp only [schedulePeer]
            rw [hacquire]
            simp only
            rw [hunmapped, hcontrol]
  | reconnecting =>
      simp only [hcontrol] at hattempt
      split at hattempt
      · cases hattempt
      · rename_i d ds hqueue
        split at hattempt
        · rename_i hcurrent
          split at hattempt
          · cases hattempt
          · rename_i hreconnect
            cases hattempt
            rw [turn, hcontrol]
            simp only
            rw [disconnectedTurn_current hqueue hcurrent, if_neg hreconnect]
        · cases hattempt
  | retrying =>
      simp only [hcontrol] at hattempt
      split at hattempt
      · cases hattempt
      · rename_i r rs hqueue
        split at hattempt
        · rename_i hcurrent
          cases hattempt
          rw [turn, hcontrol, failedTurn, hqueue]
          simp only
          rw [if_neg (not_not.mpr hcurrent), hcontrol]
        · cases hattempt

/-- A turn without an attempt calls neither `socket` nor `connect`: what they would answer is not read. -/
theorem turn_of_attempt_none (hattempt : w.attempt = none) (calls : TurnCalls) (connect : ConnectCalls) :
    w.turn { calls with connect } = w.turn calls := by
  unfold attempt at hattempt
  cases hcontrol : w.control with
  | eventLoop | draining | establishing => rw [turn, turn, hcontrol]
  | accepting pendingAccepts => rw [turn, turn, hcontrol]
  | discovering =>
      simp only [hcontrol] at hattempt
      rw [turn, turn, hcontrol]
      simp only
      split at hattempt
      · rename_i hpop
        rw [discoveredTurn, discoveredTurn, hpop]
      · rename_i newEndpoint cache hpop
        split at hattempt
        · rename_i hacquire
          rw [discoveredTurn, discoveredTurn, hpop]
          simp only [schedulePeer]
          rw [hacquire]
        · rename_i x pool' hacquire
          split at hattempt
          · rename_i mapped hmapped
            rw [discoveredTurn, discoveredTurn, hpop]
            simp only [schedulePeer]
            rw [hacquire]
            simp only
            rw [hmapped]
          · cases hattempt
  | reconnecting =>
      simp only [hcontrol] at hattempt
      rw [turn, turn, hcontrol]
      simp only
      split at hattempt
      · rename_i hqueue
        rw [disconnectedTurn, disconnectedTurn, hqueue]
      · rename_i d ds hqueue
        split at hattempt
        · rename_i hcurrent
          split at hattempt
          · rename_i hdelete
            rw [disconnectedTurn_current hqueue hcurrent, disconnectedTurn_current hqueue hcurrent,
              if_pos hdelete, if_pos hdelete]
          · cases hattempt
        · rename_i hstale
          rw [disconnectedTurn_stale hqueue hstale, disconnectedTurn_stale hqueue hstale]
  | retrying =>
      simp only [hcontrol] at hattempt
      rw [turn, turn, hcontrol]
      simp only
      split at hattempt
      · rename_i hqueue
        rw [failedTurn, failedTurn, hqueue]
      · rename_i r rs hqueue
        split at hattempt
        · cases hattempt
        · rename_i hstale
          rw [failedTurn, failedTurn, hqueue]
          simp only
          rw [if_pos hstale, if_pos hstale]

/-- The peer of an attempt is new in its slot, or as it was, or has its socket already. -/
theorem attempt_peer {u : World} (h : w.InOrder) (hattempt : w.attempt = some (u, i)) :
    u.pool.generation = w.pool.generation ∧
      (w.pool.occupied i = false ∨ u.peer i = w.peer i ∨ (u.peer i).tcp.socket ≠ none) := by
  unfold attempt at hattempt
  split at hattempt
  · split at hattempt
    · cases hattempt
    · split at hattempt
      · cases hattempt
      · rename_i x pool' hacquire
        split at hattempt
        · cases hattempt
        · cases hattempt
          obtain ⟨-, hx, hpool'⟩ := h.pool.acquire hacquire
          refine ⟨?_, Or.inl hx⟩
          show pool'.generation = w.pool.generation
          rw [hpool']
  · split at hattempt
    · cases hattempt
    · rename_i d ds hqueue
      split at hattempt
      · rename_i hcurrent
        split at hattempt
        · cases hattempt
        · cases hattempt
          refine ⟨rfl, Or.inr (Or.inr ?_)⟩
          rw [peer_countDisconnect]
          exact (connected_of_current h.registry hqueue hcurrent).socket
      · cases hattempt
  · split at hattempt
    · cases hattempt
    · split at hattempt
      · cases hattempt
        exact ⟨rfl, Or.inr (Or.inl rfl)⟩
      · cases hattempt
  · cases hattempt

/-- The step that opens a socket is an attempt on a peer that has none. -/
theorem opens_attempt (hopens : w.opens e = some i) (hstep : w.step infoHash e = some w') :
    ∃ calls u, w.attempt = some (u, i) ∧ (u.peer i).tcp.socket = none ∧
      w' = afterInitiate i (u.initiateConnect i calls) := by
  cases e with
  | turn calls =>
      simp only [opens] at hopens
      split at hopens
      · cases hopens
      · rename_i u x hattempt
        split at hopens
        · rename_i hopened
          cases hopens
          refine ⟨calls.connect, u, hattempt, ?_, ?_⟩
          · by_contra hsocket
            rw [openSocket_recorded hsocket] at hopened
            cases hopened
          · simp only [step] at hstep
            split at hstep
            · rw [turn_attempt hattempt] at hstep
              exact (Option.some.inj hstep).symm
            · cases hstep
        · cases hopens
  | discover | setEndpoint | endpointDisconnected | drainDiscovered | notifyDisconnected | runDaemon
  | serverSocketCallback | timerExpires | socketReady => cases hopens

/-- Of the sockets that may be opened for a peer, `n` have been: one for each failure, and the one that is
open. -/
structure Spent (w : World) (i : ConnectionSlot) (generation n : Nat) : Prop where
  total : n ≤ 3
  later : w.pool.generation i < generation → n = 0
  free : w.pool.generation i = generation → w.pool.occupied i = false → n = 0
  failures : w.pool.generation i = generation →
    n ≤ (w.peer i).failures + if (w.peer i).tcp.socket = none then 0 else 1

/-- A peer whose watcher is active is in an occupied slot. -/
theorem InOrder.occupied_of_active (h : w.InOrder) (hactive : (w.peer i).forSock.active = true) :
    w.pool.occupied i = true := by
  cases hi : w.pool.occupied i with
  | true => rfl
  | false =>
      have hvacant : (w.peer i).Vacant := h.registry.registered.vacant i hi
      exact Bool.noConfusion (hactive.symm.trans hvacant.sock.1)

/-- A step that opens no socket for the peer. A slot that gets its peer in this step, or loses it, had none for
this generation before. -/
theorem Spent.kept {generation n : Nat} (h : w.InOrder) (hspent : Spent w i generation n)
    (hstep : w.step infoHash e = some w') : Spent w' i generation n := by
  have horder := h.step hstep
  have hcontinues : Continues w.ledger w'.ledger i := (step_takes h hstep).moves.continues i
  have hle : w.pool.generation i ≤ w'.pool.generation i := hcontinues.le
  have hunspent : w'.pool.generation i = generation → ¬ (w.pool.occupied i = true ∧
      w'.pool.occupied i = true) → n = 0 := by
    intro hgeneration hnot
    rcases Nat.lt_or_eq_of_le hle with hlt | hsame
    · exact hspent.later (hgeneration ▸ hlt)
    · cases hi : w.pool.occupied i with
      | false => exact hspent.free (hsame.trans hgeneration) hi
      | true => exact absurd ⟨hi, (hcontinues.same hsame.symm hi).1⟩ hnot
  refine ⟨hspent.total, fun hlt => hspent.later (hle.trans_lt hlt), fun hgeneration hfree => ?_,
    fun hgeneration => ?_⟩
  · apply hunspent hgeneration
    rw [hfree]
    exact fun hboth => Bool.noConfusion hboth.2
  · by_cases hboth : w.pool.occupied i = true ∧ w'.pool.occupied i = true
    · rcases Nat.lt_or_eq_of_le hle with hlt | hsame
      · rw [hspent.later (hgeneration ▸ hlt)]
        exact Nat.zero_le _
      · have hn := hspent.failures (hsame.trans hgeneration)
        cases step_tallies h hstep i with
        | kept hkept =>
            rw [hkept.failures]
            apply hn.trans
            apply Nat.add_le_add_left
            split
            · exact Nat.zero_le _
            · rename_i hrecorded
              rw [if_neg fun hnone => hrecorded (hkept.socket hnone)]
        | failed hfailures =>
            rw [hfailures]
            split at hn <;> omega
        | vacant hvacant =>
            have hstaged : (w'.peer i).Staged := horder.registry.registered.staged i hboth.2
            exact absurd hvacant hstaged.not_vacant
    · rw [hunspent hgeneration hboth]
      exact Nat.zero_le _

/-- A step that opens a socket for the peer. -/
theorem Spent.opened {generation n : Nat} (h : (managerMachine infoHash).Reachable w)
    (hspent : Spent w i generation n) (hgeneration : w.pool.generation i = generation)
    (hopens : w.opens e = some i) (hstep : w.step infoHash e = some w') :
    Spent w' i generation (n + 1) := by
  have horder := reachable_inOrder h
  have hlt := failures_lt h i
  obtain ⟨calls, u, hattempt, hsocket, rfl⟩ := opens_attempt hopens hstep
  obtain ⟨hsame, hpeer⟩ := attempt_peer horder hattempt
  have hn : n ≤ (u.peer i).failures ∧ n ≤ 2 := by
    rcases hpeer with hi | hpeer | hrecorded
    · rw [hspent.free hgeneration hi]
      exact ⟨Nat.zero_le _, Nat.zero_le _⟩
    · have hfailures := hspent.failures hgeneration
      rw [hpeer] at hsocket ⊢
      rw [if_pos hsocket, Nat.add_zero] at hfailures
      exact ⟨hfailures, by omega⟩
    · exact absurd hsocket hrecorded
  have hsame' : u.pool.generation i = generation := (congrFun hsame i).trans hgeneration
  rcases (afterInitiate_cases u i calls).2 with hbump | ⟨hrecorded, hactive, hfailures⟩
  · have hpast : generation < (afterInitiate i (u.initiateConnect i calls)).pool.generation i := by omega
    exact ⟨by omega, fun hbefore => by omega, fun hnow => by omega, fun hnow => by omega⟩
  · refine ⟨by omega, fun hbefore => ?_, fun _ hfree => ?_, fun _ => ?_⟩
    · have hle := ((step_takes horder hstep).moves.continues i).le
      have hle' : w.pool.generation i ≤ _ := hle
      exact absurd (hgeneration ▸ hbefore) (Nat.not_lt.mpr hle')
    · have hoccupied := (horder.step hstep).occupied_of_active hactive
      exact Bool.noConfusion (hfree.symm.trans hoccupied)
    · rw [if_neg hrecorded, hfailures]
      omega

/-- **Three sockets at most are opened for a peer.** Along the steps what has been spent never exceeds it. -/
theorem socketsOpened_le {generation n : Nat} {es : List Event} (h : (managerMachine infoHash).Reachable w)
    (hspent : Spent w i generation n) : n + socketsOpened infoHash i generation w es ≤ 3 := by
  induction es generalizing w n with
  | nil => exact hspent.total
  | cons e es ih =>
      rw [socketsOpened]
      cases hstep : w.step infoHash e with
      | none => exact hspent.total
      | some w' =>
          have hreachable : (managerMachine infoHash).Reachable w' := h.step hstep
          simp only
          rw [← Nat.add_assoc]
          apply ih hreachable
          split
          · rename_i hcounts
            exact hspent.opened h hcounts.2 hcounts.1 hstep
          · exact hspent.kept (reachable_inOrder h) hstep

theorem initial_spent (i : ConnectionSlot) (generation : Nat) : Spent World.initial i generation 0 :=
  ⟨Nat.zero_le 3, fun _ => rfl, fun _ _ => rfl, fun _ => Nat.zero_le _⟩

/-- **Retries are bounded.** No peer gets more than three sockets while it keeps its slot, no peer that is
not connected has failed three times, and a peer that came in by itself is never retried. -/
theorem retries_bounded {es : List Event} (hrun : (managerMachine infoHash).Run .initial es w) :
    (∀ i generation, socketsOpened infoHash i generation .initial es ≤ 3) ∧
      (∀ i, w.pool.occupied i = true → (w.peer i).state ≠ .connected → (w.peer i).failures < 3) ∧
        ∀ i, w.pool.occupied i = true → (w.peer i).source = .tcpServer →
          (w.peer i).state ≠ .failed ∧ ∀ failedPeer ∈ w.retryQueue,
            failedPeer.connection = i → failedPeer.cachedGeneration ≠ w.pool.generation i := by
  have hinitial : (managerMachine infoHash).Reachable World.initial := .init rfl
  have hreachable := hrun.reachable hinitial
  have hregistry := (reachable_inOrder hreachable).registry
  refine ⟨fun i generation => ?_, fun i _ _ => failures_lt hreachable i, fun i hi hsource => ⟨?_, ?_⟩⟩
  · have hle := @socketsOpened_le _ i infoHash generation 0 es hinitial (initial_spent i generation)
    rw [Nat.zero_add] at hle
    exact hle
  · have hstaged : (w.peer i).Staged := hregistry.registered.staged i hi
    intro hfailed
    have hsource' := (hstaged.failed_of_state hfailed).source
    exact Psource.noConfusion (hsource'.symm.trans hsource)
  · rintro failedPeer hmem rfl hcurrent
    have hwaiting := (hregistry.references.retry failedPeer hmem).2 hcurrent
    exact Psource.noConfusion (hwaiting.source.symm.trans hsource)

def idleTurns (n : Nat) : List Event := List.replicate n (.turn idleCalls)

/-- The contact is discovered again, and the daemon runs. -/
def rediscoverRun : List Event :=
  [.discover (sampleStore 80).contact, .drainDiscovered] ++ idleTurns 2 ++ [.runDaemon]

/-- The attempt times out, and so does the wait. The peer is tried again once the daemon has been woken up
often enough to reach the scheduler of the failed peers. -/
def retryRun (wakes : Nat) (fd : Fd) : List Event :=
  [.timerExpires firstSlot, .timerExpires firstSlot, .runDaemon] ++ idleTurns 2 ++
    (List.replicate wakes (rediscoverRun ++ idleTurns 2)).flatten ++ rediscoverRun ++
      [.turn idleCalls, .turn { idleCalls with connect := ⟨.opened fd, .inprogress⟩ }]

/-- A peer is tried three times, and then deleted. -/
def thriceRun : List Event :=
  connectRun 80 5 .inprogress ++ retryRun 0 6 ++ idleTurns 7 ++ retryRun 1 7 ++ idleTurns 8 ++
    [.timerExpires firstSlot]

theorem retries_bounded_thrice :
    socketsOpened sampleInfoHash firstSlot 0 .initial thriceRun = 3 ∧
      (afterRun thriceRun).pool.occupied firstSlot = false ∧
        ∀ i generation, socketsOpened sampleInfoHash i generation .initial thriceRun ≤ 3 := by
  have hrun : (managerMachine sampleInfoHash).Run .initial thriceRun (afterRun thriceRun) :=
    after_run (by decide +kernel)
  exact ⟨by decide +kernel, by decide +kernel, (retries_bounded hrun).1⟩

end World

end TorrentEngine
