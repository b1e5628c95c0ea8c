import TorrentEngine.PeerCallbacks

/-! `peer_nonblock_tcp::send` and `recv`: one system call on the iovecs of a ring, and what its result
does to the ring and to the error that the socket keeps. -/

open CyclicCells

namespace TorrentEngine

structure SendTransact where
  transportOk : Bool
  bufferEmpty : Bool
  sentBytes : Nat
  deriving DecidableEq

structure RecvTransact where
  transportOk : Bool
  bufferFull : Bool
  recvdBytes : Nat
  deriving DecidableEq

/-! ### The kernel -/

def SendReturn.interrupted : SendReturn → Bool
  | .accepts _ => false
  | .failed errno => errno == eintr

def RecvReturn.interrupted : RecvReturn → Bool
  | .delivers _ => false
  | .failed errno => errno == eintr

/-- `sendmsg` accepts at most what it is offered. The values of `errno` are positive. -/
def SendReturn.Within (offered : Nat) : SendReturn → Prop
  | .accepts bytes => bytes ≤ offered
  | .failed errno => 0 < errno

/-- The receiving side of a socket: what has arrived and not been read, and whether the peer has closed
its stream behind it. -/
structure Inbound where
  arrived : List Byte
  closed : Bool

/-- What `recvmsg` may answer when it is asked for so many bytes. It returns zero exactly at the end of
the stream, or when it is asked for no bytes. -/
def Inbound.Answers (s : Inbound) (asked : Nat) : RecvReturn → Prop
  | .delivers bytes => bytes <+: s.arrived ∧ bytes.length ≤ asked ∧
      (bytes = [] ↔ asked = 0 ∨ (s.arrived = [] ∧ s.closed = true))
  | .failed errno => 0 < errno

/-- A system call is made again as long as it is interrupted. -/
def uninterrupted {ρ : Type} (interrupted : ρ → Bool) : List ρ → Option ρ
  | [] => none
  | answer :: answers => if interrupted answer then uninterrupted interrupted answers else some answer

/-- The answer that counts is one of those given. -/
theorem mem_of_uninterrupted {ρ : Type} {interrupted : ρ → Bool} {answers : List ρ} {call : ρ}
    (h : uninterrupted interrupted answers = some call) : call ∈ answers := by
  induction answers with
  | nil => cases h
  | cons answer answers ih =>
      rw [uninterrupted] at h
      split at h
      · exact List.mem_cons_of_mem _ (ih h)
      · cases h
        exact List.mem_cons_self

namespace PeerTcp

variable {N : Nat}

/-! ### The transport -/

def handleSendPerrno (tcp : PeerTcp) (err : Int) : PeerTcp × Bool :=
  ({ tcp with perrno := err }, err == eagain)

def handleRecvPerrno (tcp : PeerTcp) (err : Int) : PeerTcp × Bool :=
  ({ tcp with perrno := err }, err == eagain)

/-- What `send` does with the result of the system call. -/
def sent (tcp : PeerTcp) (buffer : IoRingBuffer N) :
    SendReturn → PeerTcp × IoRingBuffer N × SendTransact
  | .failed errno =>
      let (tcp, transportOk) := tcp.handleSendPerrno errno
      (tcp, buffer, ⟨transportOk, buffer.empty, 0⟩)
  | .accepts sendReturn =>
      let buffer := buffer.commitRead sendReturn
      ({ tcp with perrno := noError }, buffer, ⟨true, buffer.empty, sendReturn⟩)

/-- `send`, with the answers of `sendmsg` to the iovecs of `prepare_read`. -/
def send (tcp : PeerTcp) (buffer : IoRingBuffer N) (answers : List SendReturn) :
    Option (PeerTcp × IoRingBuffer N × SendTransact) :=
  (uninterrupted SendReturn.interrupted answers).map (tcp.sent buffer)

/-- What `recv` does with the result of the system call. The kernel has copied the bytes into the
iovecs. -/
def received (tcp : PeerTcp) (buffer : IoRingBuffer N) :
    RecvReturn → PeerTcp × IoRingBuffer N × RecvTransact
  | .failed errno =>
      let (tcp, transportOk) := tcp.handleRecvPerrno errno
      (tcp, buffer, ⟨transportOk, buffer.full, 0⟩)
  | .delivers bytes =>
      if bytes.length = 0 then ({ tcp with perrno := peerShutdown }, buffer, ⟨false, buffer.full, 0⟩)
      else
        let buffer := buffer.produce bytes
        ({ tcp with perrno := noError }, buffer, ⟨true, buffer.full, bytes.length⟩)

/-- `recv`, with the answers of `recvmsg` to the iovecs of `prepare_write`. -/
def recv (tcp : PeerTcp) (buffer : IoRingBuffer N) (answers : List RecvReturn) :
    Option (PeerTcp × IoRingBuffer N × RecvTransact) :=
  (uninterrupted RecvReturn.interrupted answers).map (tcp.received buffer)

/-! ### What a step of the transport is for -/

/-- The ring gives up the bytes that the kernel accepted, and nothing on an error. -/
def SendsExactly (buffer : IoRingBuffer N) :
    SendReturn → PeerTcp × IoRingBuffer N × SendTransact → Prop
  | .accepts bytes, (tcp', buffer', transact) =>
      (buffer.gather buffer.prepareRead).take bytes ++ buffer'.contents = buffer.contents ∧
        buffer'.WellFormed ∧ buffer'.readable + bytes = buffer.readable ∧
        transact = ⟨true, buffer'.empty, bytes⟩ ∧ tcp'.perrno = noError
  | .failed errno, (tcp', buffer', transact) =>
      buffer' = buffer ∧ transact = ⟨decide (errno = eagain), buffer.empty, 0⟩ ∧ tcp'.perrno = errno

/-- The ring takes the bytes that the kernel delivered behind those it has, and nothing on an error. -/
def ReceivesExactly (buffer : IoRingBuffer N) :
    RecvReturn → PeerTcp × IoRingBuffer N × RecvTransact → Prop
  | .delivers bytes, (_, buffer', transact) =>
      buffer'.contents = buffer.contents ++ bytes ∧ buffer'.WellFormed ∧
        transact.bufferFull = buffer'.full ∧ transact.recvdBytes = bytes.length
  | .failed errno, (tcp', buffer', transact) =>
      buffer' = buffer ∧ transact = ⟨decide (errno = eagain), buffer.full, 0⟩ ∧ tcp'.perrno = errno

/-- The peer is reported as shut down. -/
def ReportsShutdown (result : PeerTcp × IoRingBuffer N × RecvTransact) : Prop :=
  result.1.perrno = peerShutdown ∧ result.2.2.transportOk = false

/-- A step of the transport: both directions move exactly the bytes of the kernel's results, and a peer is
reported as shut down only when it has closed its stream. -/
structure Step (buffer : IoRingBuffer N) (s : Inbound) (send : SendReturn) (recv : RecvReturn)
    (sent : Option (PeerTcp × IoRingBuffer N × SendTransact))
    (received : Option (PeerTcp × IoRingBuffer N × RecvTransact)) : Prop where
  sends : ∃ result, sent = some result ∧ SendsExactly buffer send result
  receives : ∃ result, received = some result ∧ ReceivesExactly buffer recv result
  shutdown : ∀ result, received = some result → ReportsShutdown result → s.closed = true

theorem sendsExactly {buffer : IoRingBuffer N} (hwf : buffer.WellFormed) (tcp : PeerTcp)
    {call : SendReturn} (hcall : call.Within buffer.prepareRead.preparedBytes) :
    SendsExactly buffer call (tcp.sent buffer call) := by
  cases call with
  | failed errno => exact ⟨rfl, rfl, rfl⟩
  | accepts bytes =>
      have hle : bytes ≤ buffer.readable := by
        rw [← hwf.preparedBytes_prepareRead]
        exact hcall
      have hwf' := hwf.commitRead hle
      refine ⟨?_, hwf', ?_, rfl, rfl⟩
      · rw [hwf.gather_prepareRead, IoRingBuffer.contents_commitRead buffer hle]
        exact List.take_append_drop bytes buffer.contents
      · have hlength := congrArg List.length (IoRingBuffer.contents_commitRead buffer hle)
        rw [List.length_drop, IoRingBuffer.length_contents, IoRingBuffer.length_contents] at hlength
        rw [hlength]
        exact Nat.sub_add_cancel hle

theorem receivesExactly {buffer : IoRingBuffer N} (hwf : buffer.WellFormed) (tcp : PeerTcp)
    {s : Inbound} {call : RecvReturn} (hcall : s.Answers buffer.prepareWrite.preparedBytes call) :
    ReceivesExactly buffer call (tcp.received buffer call) := by
  cases call with
  | failed errno => exact ⟨rfl, rfl, rfl⟩
  | delivers bytes =>
      rw [received]
      by_cases hzero : bytes.length = 0
      · have hnil : bytes = [] := List.length_eq_zero_iff.mp hzero
        rw [if_pos hzero, hnil]
        exact ⟨(List.append_nil _).symm, hwf, rfl, rfl⟩
      · have hfit : bytes.length ≤ N - buffer.readable := by
          rw [← hwf.preparedBytes_prepareWrite]
          exact hcall.2.1
        rw [if_neg hzero]
        exact ⟨hwf.contents_produce hfit, hwf.produce hfit, rfl, rfl⟩

/-- When a peer is reported as shut down. -/
theorem reportsShutdown_iff {buffer : IoRingBuffer N} (hwf : buffer.WellFormed) (tcp : PeerTcp)
    {s : Inbound} {call : RecvReturn} (hcall : s.Answers buffer.prepareWrite.preparedBytes call) :
    ReportsShutdown (tcp.received buffer call) ↔ (∃ bytes, call = .delivers bytes) ∧
      (buffer.readable = N ∨ (s.arrived = [] ∧ s.closed = true)) := by
  have hle := hwf.readable_le
  have hroom := hwf.preparedBytes_prepareWrite
  cases call with
  | failed errno =>
      have herrno : 0 < errno := hcall
      constructor
      · intro h
        have hshutdown : errno = peerShutdown := h.1
        rw [hshutdown] at herrno
        exact absurd herrno (by decide)
      · rintro ⟨⟨bytes, h⟩, -⟩
        cases h
  | delivers bytes =>
      obtain ⟨-, -, hempty⟩ := hcall
      rw [hroom] at hempty
      rw [received]
      by_cases hzero : bytes.length = 0
      · rw [if_pos hzero]
        rcases hempty.mp (List.length_eq_zero_iff.mp hzero) with hfull | hend
        · exact ⟨fun _ => ⟨⟨bytes, rfl⟩, Or.inl (by omega)⟩, fun _ => ⟨rfl, rfl⟩⟩
        · exact ⟨fun _ => ⟨⟨bytes, rfl⟩, Or.inr hend⟩, fun _ => ⟨rfl, rfl⟩⟩
      · rw [if_neg hzero]
        constructor
        · intro h
          exact absurd h.2 Bool.true_eq_false_eq_False
        · rintro ⟨-, hfull | hend⟩
          · exact absurd (List.length_eq_zero_iff.mpr (hempty.mpr (Or.inl (by omega)))) hzero
          · exact absurd (List.length_eq_zero_iff.mpr (hempty.mpr (Or.inr hend))) hzero

/-- **When a step of the transport does what it is for.** A full ring asks the kernel for no bytes, and the
zero it returns is taken for the end of the stream: the peer is then reported as shut down unless it has
closed its stream, or the call fails. -/
theorem step_iff {buffer : IoRingBuffer N} (hwf : buffer.WellFormed) (tcp : PeerTcp) (s : Inbound)
    {sends : List SendReturn} {recvs : List RecvReturn} {send : SendReturn} {recv : RecvReturn}
    (hsends : ∀ answer ∈ sends, answer.Within buffer.prepareRead.preparedBytes)
    (hrecvs : ∀ answer ∈ recvs, s.Answers buffer.prepareWrite.preparedBytes answer)
    (hsend : uninterrupted SendReturn.interrupted sends = some send)
    (hrecv : uninterrupted RecvReturn.interrupted recvs = some recv) :
    Step buffer s send recv (tcp.send buffer sends) (tcp.recv buffer recvs) ↔
      buffer.readable < N ∨ s.closed = true ∨ ∃ errno, recv = .failed errno := by
  have hle := hwf.readable_le
  have hanswer := hrecvs recv (mem_of_uninterrupted hrecv)
  have hsent : tcp.send buffer sends = some (tcp.sent buffer send) := by
    rw [PeerTcp.send, hsend, Option.map_some]
  have hreceived : tcp.recv buffer recvs = some (tcp.received buffer recv) := by
    rw [PeerTcp.recv, hrecv, Option.map_some]
  rw [hsent, hreceived]
  constructor
  · intro h
    by_cases hfull : buffer.readable = N
    · cases recv with
      | failed errno => exact Or.inr (Or.inr ⟨errno, rfl⟩)
      | delivers bytes =>
          have hreports := (reportsShutdown_iff hwf tcp hanswer).mpr ⟨⟨bytes, rfl⟩, Or.inl hfull⟩
          exact Or.inr (Or.inl (h.shutdown _ rfl hreports))
    · exact Or.inl (by omega)
  · intro h
    refine ⟨⟨_, rfl, sendsExactly hwf tcp (hsends send (mem_of_uninterrupted hsend))⟩,
      ⟨_, rfl, receivesExactly hwf tcp hanswer⟩, ?_⟩
    rintro result ⟨⟩ hreports
    obtain ⟨⟨bytes, rfl⟩, hfull | ⟨-, hclosed⟩⟩ := (reportsShutdown_iff hwf tcp hanswer).mp hreports
    · rcases h with hroom | hclosed | ⟨errno, hfailed⟩
      · omega
      · exact hclosed
      · cases hfailed
    · exact hclosed

def ringOf (bytes : List Byte) : IoRingBuffer 68 := (IoRingBuffer.initial 68 fun _ => 0).produce bytes

theorem ringOf_wellFormed {bytes : List Byte} (hlength : bytes.length ≤ 68) :
    (ringOf bytes).WellFormed :=
  (IoRingBuffer.initial_wellFormed (by decide) _).produce hlength

/-- A peer that has sent bytes and not closed its stream. -/
def livePeer : Inbound := ⟨[1, 2], false⟩

theorem step_iff_interrupted :
    Step (ringOf [7, 8, 9]) livePeer (.accepts 2) (.delivers [1])
      ((PeerTcp.mk (some 5) noError).send (ringOf [7, 8, 9]) [.failed eintr, .accepts 2])
      ((PeerTcp.mk (some 5) noError).recv (ringOf [7, 8, 9]) [.failed eintr, .delivers [1]]) := by
  refine (step_iff (ringOf_wellFormed (by decide)) _ livePeer ?_ ?_ rfl rfl).mpr
    (Or.inl (by decide))
  · intro answer hanswer
    rcases List.mem_cons.mp hanswer with rfl | hlast
    · rw [SendReturn.Within]
      decide
    · rw [List.mem_singleton.mp hlast, SendReturn.Within]
      decide
  · intro answer hanswer
    rcases List.mem_cons.mp hanswer with rfl | hlast
    · rw [Inbound.Answers]
      decide
    · rw [List.mem_singleton.mp hlast, Inbound.Answers]
      decide

/-- **A live peer is reported as shut down** by a receive on a full ring. -/
theorem step_fullRing :
    (ringOf (List.replicate 68 7)).full = true ∧
      livePeer.Answers (ringOf (List.replicate 68 7)).prepareWrite.preparedBytes (.delivers []) ∧
      ¬ Step (ringOf (List.replicate 68 7)) livePeer (.accepts 0) (.delivers [])
        ((PeerTcp.mk (some 5) noError).send (ringOf (List.replicate 68 7)) [.accepts 0])
        ((PeerTcp.mk (some 5) noError).recv (ringOf (List.replicate 68 7)) [.delivers []]) := by
  refine ⟨by decide +kernel, ⟨List.nil_prefix, Nat.zero_le _, ?_⟩, ?_⟩
  · exact ⟨fun _ => Or.inl (by decide +kernel), fun _ => rfl⟩
  · intro h
    have hclosed := h.shutdown _ rfl ⟨rfl, rfl⟩
    exact absurd hclosed (by decide)

end PeerTcp

/-! ### The transport of the connection manager -/

namespace World

variable (w : World) (i : ConnectionSlot)

/-- `PeerConnection::send_messages` is the transport on the peer's send buffer. -/
theorem sendMessages_eq_sent {call : SendReturn}
    (hcall : call.Within (w.peer i).sendBuffer.prepareRead.preparedBytes) :
    let result := (w.peer i).tcp.sent (w.peer i).sendBuffer call
    (w.sendMessages i call).1.peer i = { w.peer i with tcp := result.1, sendBuffer := result.2.1 } ∧
      (w.sendMessages i call).2 = (result.2.2.transportOk, result.2.2.bufferEmpty) := by
  cases call with
  | failed errno =>
      simp [sendMessages, PeerTcp.sent, PeerTcp.handleSendPerrno]
  | accepts bytes =>
      have htaken : (((w.peer i).sendBuffer.gather (w.peer i).sendBuffer.prepareRead).take
          bytes).length = bytes := by
        rw [List.length_take, IoRingBuffer.gather, List.length_map,
          ← IoRingBuffer.preparedBytes_prepareRead_cells]
        exact Nat.min_eq_left hcall
      simp [sendMessages, PeerTcp.sent, htaken]

/-- `PeerConnection::recv_messages` is the transport on the peer's receive buffer. -/
theorem recvMessages_eq_received {s : Inbound} {call : RecvReturn}
    (hcall : s.Answers (w.peer i).recvBuffer.prepareWrite.preparedBytes call) :
    let result := (w.peer i).tcp.received (w.peer i).recvBuffer call
    (w.recvMessages i call).1.peer i = { w.peer i with tcp := result.1, recvBuffer := result.2.1 } ∧
      (w.recvMessages i call).2 = result.2.2.transportOk := by
  cases call with
  | failed errno =>
      simp [recvMessages, PeerTcp.received, PeerTcp.handleRecvPerrno]
  | delivers bytes =>
      have hgiven : bytes.take (w.peer i).recvBuffer.prepareWrite.preparedBytes = bytes :=
        List.take_of_length_le hcall.2.1
      simp only [recvMessages, hgiven, PeerTcp.received, List.length_eq_zero_iff]
      by_cases hnil : bytes = []
      · rw [if_pos hnil, if_pos hnil, peer_setPeer]
        exact ⟨rfl, rfl⟩
      · rw [if_neg hnil, if_neg hnil, peer_setPeer]
        exact ⟨rfl, rfl⟩

end World
end TorrentEngine
