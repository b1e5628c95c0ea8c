import TorrentEngine.PeerReachable

/-! What `disconnected_peer_scheduler` does with the update of an ended session. The connection of the slot
still records the socket that it handed over, and the error that counts is its own, not that of the update. -/

open Transition

namespace TorrentEngine

open PeerConnection Ledger

namespace World

variable {w w₁ w' : World} {i : ConnectionSlot} {infoHash : Vector Byte 20}

/-- The peer in a slot is deleted, and no socket is opened. -/
structure Deletes (w : World) (i : ConnectionSlot) (w' : World) : Prop where
  occupied : w'.pool.occupied i = false
  unmapped : w'.peers (w.peer i).contact.endpoint = none
  kernel : w'.kernel = w.kernel

/-- The failure of the peer is counted, and an attempt to reach it again is in progress on a new socket. -/
structure Reconnects (w : World) (i : ConnectionSlot) (fd : Fd) (w' : World) : Prop where
  occupied : w'.pool.occupied i = true
  generation : w'.pool.generation i = w.pool.generation i
  failures : (w'.peer i).failures = (w.peer i).failures + 1
  socket : (w'.peer i).tcp.socket = some fd
  opened : (w'.kernel fd).isSome

/-- A peer that shut the connection down is deleted. Any other is connected to again, and deleted only when
that fails. -/
def DisconnectPolicy (w : World) (disconnected : DisconnectUpdate) (calls : ConnectCalls) (w' : World) :
    Prop :=
  if disconnected.perrno = peerShutdown then w.Deletes disconnected.peer w'
  else
    match calls with
    | ⟨.failed _, _⟩ => w.Deletes disconnected.peer w'
    | ⟨.opened _, .failed _⟩ => w.Deletes disconnected.peer w'
    | ⟨.opened fd, _⟩ => w.Reconnects disconnected.peer fd w'

theorem disconnectPolicy_opened {disconnected : DisconnectUpdate}
    (hshutdown : disconnected.perrno ≠ peerShutdown) (fd : Fd) :
    w.DisconnectPolicy disconnected ⟨.opened fd, .inprogress⟩ w' ↔ w.Reconnects disconnected.peer fd w' := by
  unfold DisconnectPolicy
  rw [if_neg hshutdown]

theorem Deletes.not_reconnects (h : w.Deletes i w') (fd : Fd) : ¬ w.Reconnects i fd w' := fun hreconnects =>
  Bool.noConfusion (h.occupied.symm.trans hreconnects.occupied)

/-- With a socket recorded, no other is opened. -/
theorem openSocket_recorded (hsocket : (w.peer i).tcp.socket ≠ none) (domain : SaFamily)
    (call : SocketReturn) : w.openSocket i domain call =
      (w.setPeer i { w.peer i with tcp := { (w.peer i).tcp with perrno := einval } }, false) := by
  unfold openSocket
  simp only
  rw [if_pos hsocket]
  rfl

theorem initiateConnect_recorded (hsocket : (w.peer i).tcp.socket ≠ none) (calls : ConnectCalls) :
    w.initiateConnect i calls =
      ((w.check .connectSource ((w.peer i).source == .tracker)).setPeer i
        { w.peer i with tcp := { (w.peer i).tcp with perrno := einval } }, false) := by
  let w₀ := w.check .connectSource ((w.peer i).source == .tracker)
  unfold initiateConnect connect
  simp only
  rw [@openSocket_recorded w₀ i hsocket]
  rfl

theorem deletePeerConnection_deletes (hkernel : w₁.kernel = w.kernel)
    (hcontact : (w₁.peer i).contact = (w.peer i).contact) : w.Deletes i (w₁.deletePeerConnection i) := by
  refine ⟨Function.update_self _ _ _, ?_, hkernel⟩
  rw [← hcontact]
  exact Function.update_self _ _ _

/-- **A peer whose session has ended is always deleted.** -/
theorem disconnectedTurn_deletes {d : DisconnectUpdate} {ds : List DisconnectUpdate}
    (hqueue : w.disconnects = d :: ds) (hcurrent : w.pool.generation d.peer = d.generation)
    (hsocket : (w.peer d.peer).tcp.socket ≠ none) (calls : ConnectCalls) :
    w.Deletes d.peer (w.disconnectedTurn calls) := by
  rw [disconnectedTurn_current hqueue hcurrent]
  split
  · apply deletePeerConnection_deletes
    · rfl
    · rw [peer_popDisconnect]
  · have hrecorded : ((w.countDisconnect d ds).peer d.peer).tcp.socket ≠ none := by
      rw [peer_countDisconnect]
      exact hsocket
    rw [initiateConnect_recorded hrecorded]
    apply deletePeerConnection_deletes
    · rfl
    · rw [peer_setPeer, peer_countDisconnect]

/-- **Whose disconnects are treated as they should be.** For an update that is as new as its slot it is only
when the peer shut the connection down, or when `socket` or `connect` would have failed anyway. -/
theorem disconnect_policy_iff (h : (managerMachine infoHash).Reachable w)
    {disconnected : DisconnectUpdate} {disconnects : List DisconnectUpdate} {calls : TurnCalls}
    (hcontrol : w.control = .reconnecting) (hqueue : w.disconnects = disconnected :: disconnects)
    (hcurrent : w.pool.generation disconnected.peer = disconnected.generation)
    (hstep : w.step infoHash (.turn calls) = some w') :
    w.DisconnectPolicy disconnected calls.connect w' ↔
      disconnected.perrno = peerShutdown ∨ calls.connect.reportError = true := by
  have hconnected := connected_of_current (reachable_inOrder h).registry hqueue hcurrent
  have hdeletes : w.Deletes disconnected.peer w' := by
    simp only [step] at hstep
    split at hstep
    · rw [turn, hcontrol] at hstep
      cases hstep
      exact disconnectedTurn_deletes hqueue hcurrent hconnected.socket calls.connect
    · cases hstep
  unfold DisconnectPolicy
  by_cases hshutdown : disconnected.perrno = peerShutdown
  · rw [if_pos hshutdown]
    exact ⟨fun _ => Or.inl hshutdown, fun _ => hdeletes⟩
  · rw [if_neg hshutdown, or_iff_right hshutdown]
    obtain ⟨⟨socket, connect⟩, accept⟩ := calls
    cases socket with
    | failed errno => exact ⟨fun _ => rfl, fun _ => hdeletes⟩
    | opened fd =>
        cases connect with
        | failed errno => exact ⟨fun _ => rfl, fun _ => hdeletes⟩
        | connected => exact iff_of_false (hdeletes.not_reconnects fd) Bool.false_ne_true
        | inprogress => exact iff_of_false (hdeletes.not_reconnects fd) Bool.false_ne_true

/-- A peer from a tracker has been connected, its session has ended with this error, and the update is next. -/
def disconnectedRun (perrno : Int) : List Event :=
  connectRun 80 5 .inprogress ++
    [.socketReady firstSlot (.io .write) ⟨.error 0, .failed eagain, .accepts 68⟩] ++
    handshakeRun firstSlot ++ [.setEndpoint, .endpointDisconnected 0 perrno, .notifyDisconnected,
      .runDaemon, .turn idleCalls]

/-- The session has ended with `ECONNRESET`. -/
def resetWorld : World := afterRun (disconnectedRun 104)

def resetUpdate : DisconnectUpdate := ⟨firstSlot, 0, 104⟩

def shutdownWorld : World := afterRun (disconnectedRun peerShutdown)

def shutdownUpdate : DisconnectUpdate := ⟨firstSlot, 0, peerShutdown⟩

/-- A socket is opened, and the attempt on it goes on. -/
def openingCalls : TurnCalls := { idleCalls with connect := ⟨.opened 7, .inprogress⟩ }

theorem step_openingCalls (hcontrol : w.control = .reconnecting) (hfree : w.fdFree (some 7) = true) :
    w.step infoHash (.turn openingCalls) = some (w.disconnectedTurn openingCalls.connect) := by
  rw [step, if_pos ⟨hfree, rfl⟩, turn, hcontrol]

theorem disconnect_policy_iff_sample :
    shutdownWorld.DisconnectPolicy shutdownUpdate openingCalls.connect
        (shutdownWorld.disconnectedTurn openingCalls.connect) ∧
      ¬ resetWorld.DisconnectPolicy resetUpdate openingCalls.connect
        (resetWorld.disconnectedTurn openingCalls.connect) := by
  constructor
  · have hreachable : (managerMachine sampleInfoHash).Reachable shutdownWorld := afterRun_reachable _
    have hcontrol : shutdownWorld.control = .reconnecting := by decide +kernel
    have hqueue : shutdownWorld.disconnects = [shutdownUpdate] := by decide +kernel
    have hcurrent : shutdownWorld.pool.generation shutdownUpdate.peer = shutdownUpdate.generation := by
      decide +kernel
    have hstep := @step_openingCalls _ sampleInfoHash hcontrol (by decide +kernel)
    exact (disconnect_policy_iff hreachable hcontrol hqueue hcurrent hstep).mpr (Or.inl rfl)
  · have hreachable : (managerMachine sampleInfoHash).Reachable resetWorld := afterRun_reachable _
    have hcontrol : resetWorld.control = .reconnecting := by decide +kernel
    have hqueue : resetWorld.disconnects = [resetUpdate] := by decide +kernel
    have hcurrent : resetWorld.pool.generation resetUpdate.peer = resetUpdate.generation := by
      decide +kernel
    have hstep := @step_openingCalls _ sampleInfoHash hcontrol (by decide +kernel)
    intro hpolicy
    rcases (disconnect_policy_iff hreachable hcontrol hqueue hcurrent hstep).mp hpolicy with
      hshutdown | herror
    · exact absurd hshutdown (by decide)
    · cases herror

/-- The peer is deleted, and no socket was opened for it. -/
theorem disconnect_policy_reset : (managerMachine sampleInfoHash).Reachable resetWorld ∧
    resetWorld.control = .reconnecting ∧ resetWorld.disconnects = [resetUpdate] ∧
      resetWorld.pool.generation resetUpdate.peer = resetUpdate.generation ∧
        (resetWorld.peer resetUpdate.peer).source = .tracker ∧
        ∃ w', resetWorld.step sampleInfoHash (.turn openingCalls) = some w' ∧
          w'.pool.occupied resetUpdate.peer = false ∧ w'.kernel 7 = none ∧
            ¬ resetWorld.DisconnectPolicy resetUpdate openingCalls.connect w' := by
  have hreachable : (managerMachine sampleInfoHash).Reachable resetWorld := afterRun_reachable _
  have hoccupied :
      (resetWorld.disconnectedTurn openingCalls.connect).pool.occupied resetUpdate.peer = false := by
    decide +kernel
  have hcontrol : resetWorld.control = .reconnecting := by decide +kernel
  refine ⟨hreachable, hcontrol, by decide +kernel, by decide +kernel, by decide +kernel,
    resetWorld.disconnectedTurn openingCalls.connect, step_openingCalls hcontrol (by decide +kernel),
    hoccupied, by decide +kernel, ?_⟩
  have hshutdown : resetUpdate.perrno ≠ peerShutdown := by decide
  intro hpolicy
  have hreconnects := (disconnectPolicy_opened hshutdown 7).mp hpolicy
  exact Bool.noConfusion (hoccupied.symm.trans hreconnects.occupied)

end World

end TorrentEngine
