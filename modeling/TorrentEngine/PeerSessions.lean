import TorrentEngine.DynamicBitset
import TorrentEngine.PeerTransport

/-! The life of a `PeerSession`. It is constructed once and used for one connection after the other:
`set_endpoint` hands it a connection, and `endpoint_disconnected` sets its fields back one by one. -/

open CyclicCells

namespace TorrentEngine

namespace PeerTcp

def adoptSocket (tcp : PeerTcp) (sock : Option Fd) : PeerTcp × Bool :=
  if tcp.socket ≠ none ∨ sock = none then (tcp, false) else ({ tcp with socket := sock }, true)

/-- What `close_socket` leaves. -/
def closed : PeerTcp := ⟨none, noError⟩

end PeerTcp

namespace Transfer

abbrev SessionBuffer := IoRingBuffer (2 ^ 16)

structure ConnectUpdate extends TorrentEngine.ConnectUpdate where
  id : Nat

structure DisconnectUpdate where
  peer : Option ConnectionSlot
  generation : Nat
  perrno : Int
  deriving DecidableEq

structure PeerSession where
  tcp : PeerTcp
  recvBuffer : SessionBuffer
  sendBuffer : SessionBuffer
  forSock : IoWatcher
  forTimer : TimerWatcher
  id : Nat
  generation : Nat
  choke : BitVec 2
  interest : BitVec 2
  downRate : Nat
  upldRate : Nat
  bitfield : DynamicBitset
  /-- `none` is the dummy peer. -/
  peer : Option ConnectionSlot

/-- What a constructor leaves uninitialised. -/
structure Leftover where
  id : Nat
  generation : Nat
  recvStorage : Nat → Byte
  sendStorage : Nat → Byte

namespace PeerSession

def construct (leftover : Leftover) : PeerSession where
  tcp := ⟨none, noError⟩
  recvBuffer := .initial _ leftover.recvStorage
  sendBuffer := .initial _ leftover.sendStorage
  forSock := ⟨false, none, .read, false⟩
  forTimer := ⟨false, 0⟩
  id := leftover.id
  generation := leftover.generation
  choke := 0
  interest := 0
  downRate := 0
  upldRate := 0
  bitfield := .ofCount 0
  peer := none

def setEndpoint (session : PeerSession) (endpoint : ConnectUpdate) : PeerSession :=
  { session with
    peer := some endpoint.peer
    id := endpoint.id
    generation := endpoint.generation
    tcp := (session.tcp.adoptSocket endpoint.socket).1 }

def endpointDisconnected (session : PeerSession) : PeerSession × DisconnectUpdate :=
  ({ session with
      id := 0
      generation := 0
      downRate := 0
      upldRate := 0
      choke := BitVec.allOnes 2
      interest := 0
      bitfield := session.bitfield.clear
      tcp := .closed
      recvBuffer := session.recvBuffer.reset
      sendBuffer := session.sendBuffer.reset
      forSock := session.forSock.stop
      forTimer := session.forTimer.stop
      peer := none },
    ⟨session.peer, session.generation, session.tcp.perrno⟩)

/-- `send_messages`, with the answer of the system call that counts. -/
def sendMessages (session : PeerSession) (call : SendReturn) : PeerSession × SendTransact :=
  let (tcp, sendBuffer, transact) := session.tcp.sent session.sendBuffer call
  ({ session with tcp, sendBuffer }, transact)

def recvMessages (session : PeerSession) (call : RecvReturn) : PeerSession × RecvTransact :=
  let (tcp, recvBuffer, transact) := session.tcp.received session.recvBuffer call
  ({ session with tcp, recvBuffer }, transact)

end PeerSession

/-! ### Histories -/

/-- What happens to a session. The transfer side writes the public members as it likes. -/
inductive SessionEvent where
  | setEndpoint (endpoint : ConnectUpdate)
  | endpointDisconnected
  | sendMessages (call : SendReturn)
  | recvMessages (call : RecvReturn)
  | encode (message : List Byte)
  | decode (bytes : Nat)
  | setChoke (choke : BitVec 2)
  | setInterest (interest : BitVec 2)
  | setRates (downRate upldRate : Nat)
  | setBitfield (bitfield : DynamicBitset)
  | watch (forSock : IoWatcher) (forTimer : TimerWatcher)

namespace PeerSession

def after (session : PeerSession) : SessionEvent → PeerSession
  | .setEndpoint endpoint => session.setEndpoint endpoint
  | .endpointDisconnected => session.endpointDisconnected.1
  | .sendMessages call => (session.sendMessages call).1
  | .recvMessages call => (session.recvMessages call).1
  | .encode message => { session with sendBuffer := session.sendBuffer.produce message }
  | .decode bytes => { session with recvBuffer := session.recvBuffer.commitRead bytes }
  | .setChoke choke => { session with choke }
  | .setInterest interest => { session with interest }
  | .setRates downRate upldRate => { session with downRate, upldRate }
  | .setBitfield bitfield => { session with bitfield }
  | .watch forSock forTimer => { session with forSock, forTimer }

/-- The session of this history. -/
def ofHistory (leftover : Leftover) (history : List SessionEvent) : PeerSession :=
  history.foldl after (construct leftover)

end PeerSession

/-- What can be told of a session. -/
structure Observed where
  choke : BitVec 2
  interest : BitVec 2
  downRate : Nat
  upldRate : Nat
  received : List Byte
  toSend : List Byte
  socket : Option Fd
  perrno : Int
  peer : Option ConnectionSlot
  id : Nat
  generation : Nat
  deriving DecidableEq

namespace PeerSession

variable (session : PeerSession)

def observed : Observed where
  choke := session.choke
  interest := session.interest
  downRate := session.downRate
  upldRate := session.upldRate
  received := session.recvBuffer.contents
  toSend := session.sendBuffer.contents
  socket := session.tcp.socket
  perrno := session.tcp.perrno
  peer := session.peer
  id := session.id
  generation := session.generation

/-- A session at the start of a connection, all but the choke flags as they should be. -/
def started (endpoint : ConnectUpdate) (choke : BitVec 2) : Observed :=
  ⟨choke, 0, 0, 0, [], [], endpoint.socket, noError, some endpoint.peer, endpoint.id,
    endpoint.generation⟩

theorem adoptSocket_closed (sock : Option Fd) : (PeerTcp.closed.adoptSocket sock).1 = ⟨sock, noError⟩ := by
  cases sock with
  | none => rfl
  | some fd => rfl

/-- A session that has had no connection starts with its choke flags clear. -/
theorem observed_construct (leftover : Leftover) (endpoint : ConnectUpdate) :
    ((construct leftover).setEndpoint endpoint).observed = started endpoint 0 := by
  have htcp : (((construct leftover).setEndpoint endpoint).tcp : PeerTcp) = ⟨endpoint.socket, noError⟩ :=
    adoptSocket_closed endpoint.socket
  rw [observed, htcp, started]
  rfl

/-- Whatever it was before, a session that has ended a connection starts with its choke flags set. -/
theorem observed_endpointDisconnected (endpoint : ConnectUpdate) :
    (session.endpointDisconnected.1.setEndpoint endpoint).observed =
      started endpoint (BitVec.allOnes 2) := by
  have htcp : ((session.endpointDisconnected.1.setEndpoint endpoint).tcp : PeerTcp) =
      ⟨endpoint.socket, noError⟩ := adoptSocket_closed endpoint.socket
  rw [observed, htcp, started]
  rfl

/-- What the world of the connection manager keeps of a session that has a connection. -/
def held : Option TorrentEngine.PeerSession :=
  session.peer.map fun peer => ⟨peer, session.generation, session.tcp.socket⟩

/-- A session without a socket holds the connection it is handed. -/
theorem held_setEndpoint {session : PeerSession} (hsocket : session.tcp.socket = none)
    (endpoint : ConnectUpdate) : (session.setEndpoint endpoint).held =
      some ⟨endpoint.peer, endpoint.generation, endpoint.socket⟩ := by
  have hadopted : (session.tcp.adoptSocket endpoint.socket).1.socket = endpoint.socket := by
    rw [PeerTcp.adoptSocket, hsocket]
    cases endpoint.socket with
    | none => exact hsocket
    | some fd => rfl
  rw [held, setEndpoint, hadopted]
  rfl

/-- The update for the manager is about the connection that was held. -/
theorem endpointDisconnected_update {session : PeerSession} {ended : TorrentEngine.PeerSession}
    (hheld : session.held = some ended) : session.endpointDisconnected.2 =
      ⟨some ended.peer, ended.generation, session.tcp.perrno⟩ := by
  obtain ⟨peer, hpeer, rfl⟩ := Option.map_eq_some_iff.mp hheld
  rw [endpointDisconnected, hpeer]

/-- **A recycled session can be told from a fresh one**, whatever its history and whatever connection both
are handed: all that can be observed is the same but the choke flags, which are both set where those of
the fresh session are both clear. -/
theorem recycled_distinguished (leftover leftover' : Leftover) (history : List SessionEvent)
    (endpoint : ConnectUpdate) :
    let fresh := ((construct leftover).setEndpoint endpoint).observed
    let recycled :=
      ((ofHistory leftover' history).endpointDisconnected.1.setEndpoint endpoint).observed
    recycled = { fresh with choke := BitVec.allOnes 2 } ∧ fresh.choke = 0 ∧ recycled ≠ fresh := by
  intro fresh recycled
  have hfresh : fresh = started endpoint 0 := observed_construct leftover endpoint
  have hrecycled : recycled = started endpoint (BitVec.allOnes 2) :=
    observed_endpointDisconnected (ofHistory leftover' history) endpoint
  refine ⟨?_, ?_, ?_⟩
  · rw [hrecycled, hfresh]
    rfl
  · rw [hfresh]
    rfl
  · intro heq
    have hdiffer : BitVec.allOnes 2 ≠ 0 := by decide
    have hchoke := congrArg Observed.choke heq
    rw [hrecycled, hfresh] at hchoke
    exact hdiffer hchoke

/-- A session is handed descriptor 5, receives two bytes, is unchoked and shut down; and then it is handed
descriptor 7. -/
theorem recycled_choked :
    let leftover : Leftover := ⟨0, 0, fun _ => 0, fun _ => 0⟩
    let first : ConnectUpdate := ⟨⟨0, some 5, 0⟩, 1⟩
    let second : ConnectUpdate := ⟨⟨1, some 7, 3⟩, 2⟩
    let history := [.setEndpoint first, .recvMessages (.delivers [1, 2]), .setChoke 0,
      .recvMessages (.delivers [])]
    ((construct leftover).setEndpoint second).observed.choke = 0 ∧
      ((ofHistory leftover history).endpointDisconnected.1.setEndpoint second).observed.choke =
        BitVec.allOnes 2 := by
  intro leftover first second history
  exact ⟨rfl, rfl⟩

end PeerSession

end Transfer

end TorrentEngine
