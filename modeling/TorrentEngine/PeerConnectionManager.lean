import TorrentEngine.Library.Transition
import TorrentEngine.OverwritableCache
import TorrentEngine.PeerConnection
import TorrentEngine.SlotPool

/-! `PeerConnectionManager` and what runs beside it. A step is one turn of a loop or one callback of
the manager's event loop, with the results of the system calls it makes as part of the label, or one
action of another thread: a tracker pushes a discovered contact, the transfer side takes a connected
peer or ends the session of one. -/

open Transition

namespace TorrentEngine

/-! ### Data -/

/-- A key of the map of peers: what the hash and `operator ==` of a contact look at. -/
abbrev Endpoint := Bool × Vector Byte 16 × (Byte × Byte)

abbrev ConnectionSlot := Fin 200

abbrev ConnectionPool := SlotPool PeerConnection 200

/-- `connection_statistics_t`. -/
structure ConnectionStatistics where
  connectedBittorrentPeers : Nat
  inboundInflight : Nat
  outboundInflight : Nat
  failedPeers : Nat
  peersInRetry : Nat
  ipv4AddrInCache : Nat
  deriving DecidableEq, Repr

structure PeerFailureUpdate where
  connection : ConnectionSlot
  cachedGeneration : Nat
  deriving DecidableEq

structure ConnectUpdate where
  peer : ConnectionSlot
  socket : Option Fd
  generation : Nat
  deriving DecidableEq

structure DisconnectUpdate where
  peer : ConnectionSlot
  generation : Nat
  perrno : Int
  deriving DecidableEq

/-- A `PeerSession` after `set_endpoint`. -/
structure PeerSession where
  peer : ConnectionSlot
  generation : Nat
  socket : Option Fd
  deriving DecidableEq

/-- `spot_t`. -/
inductive Spot where
  | discovered
  | disconnected
  | failed
  deriving DecidableEq, Repr

/-- What the kernel has taken from the manager and given to it on an open connection. -/
structure Connection where
  sent : List Byte
  received : List Byte
  deriving DecidableEq

def Connection.fresh : Connection := ⟨[], []⟩

/-- The descriptors that are open. -/
abbrev Kernel := Fd → Option Connection

namespace Kernel

def opened (kernel : Kernel) (fd : Fd) : Kernel := Function.update kernel fd (some .fresh)

def closed (kernel : Kernel) : Option Fd → Kernel
  | none => kernel
  | some fd => Function.update kernel fd none

/-- Bytes go through the connection of a socket. -/
def transferred (kernel : Kernel) (socket : Option Fd) (f : Connection → Connection) : Kernel :=
  match socket with
  | none => kernel
  | some fd => Function.update kernel fd ((kernel fd).map f)

end Kernel

/-- Where the manager's thread stands: in the event loop, or in one of the loops of a callback. -/
inductive Control where
  | eventLoop
  | draining
  | establishing
  | discovering
  | reconnecting
  | retrying
  | accepting (pendingAccepts : Bool)
  deriving DecidableEq, Repr

/-- The assertions of the manager. One that fails is recorded, and the code after it still runs. -/
inductive Assertion where
  | connectSource
  | acquisitionSuccessful
  | failureSource
  | timerState
  | callbackState
  | callbackSource
  | getsockopt
  | encodeCompleted
  | sendBufferEmpty
  | teardownSocket
  deriving DecidableEq, Repr

structure World where
  control : Control
  statistics : ConnectionStatistics
  pool : ConnectionPool
  peers : Endpoint → Option ConnectionSlot
  discoveries : List PeerContact
  cache : OverwritableCache PeerContact 200
  disconnects : List DisconnectUpdate
  connects : List ConnectUpdate
  retryQueue : List PeerFailureUpdate
  current : Spot
  empties : Bool × Bool × Bool
  discoveriesSent : Bool
  disconnectsSent : Bool
  daemonSent : Bool
  sessions : List PeerSession
  kernel : Kernel
  failedAssertions : List Assertion
  /-- The connection behind the socket of each peer that was marked connected, as it was then. -/
  dispatched : List (Option Connection)

namespace ConnectionStatistics

def zero : ConnectionStatistics := ⟨0, 0, 0, 0, 0, 0⟩

def hasMetConnectionQuota (s : ConnectionStatistics) : Bool := !(s.connectedBittorrentPeers < 50)

def incrementInboundInflight (s : ConnectionStatistics) : ConnectionStatistics :=
  { s with inboundInflight := SizeT.inc s.inboundInflight }

def singleInboundResolved (s : ConnectionStatistics) : ConnectionStatistics :=
  { s with inboundInflight := SizeT.dec s.inboundInflight }

def incrementOutboundInflight (s : ConnectionStatistics) : ConnectionStatistics :=
  { s with outboundInflight := SizeT.inc s.outboundInflight }

def singleOutboundResolved (s : ConnectionStatistics) : ConnectionStatistics :=
  { s with outboundInflight := SizeT.dec s.outboundInflight }

def singleResolved (s : ConnectionStatistics) (source : Psource) : ConnectionStatistics :=
  if source = .tcpServer then s.singleOutboundResolved else s.singleInboundResolved

def incrementConnectedBittorrentPeers (s : ConnectionStatistics) : ConnectionStatistics :=
  { s with connectedBittorrentPeers := SizeT.inc s.connectedBittorrentPeers }

def decrementConnectedBittorrentPeers (s : ConnectionStatistics) : ConnectionStatistics :=
  { s with connectedBittorrentPeers := SizeT.dec s.connectedBittorrentPeers }

def incrementFailed (s : ConnectionStatistics) : ConnectionStatistics :=
  { s with failedPeers := SizeT.inc s.failedPeers }

def decrementFailed (s : ConnectionStatistics) : ConnectionStatistics :=
  { s with failedPeers := SizeT.dec s.failedPeers }

def incrementPeersInRetry (s : ConnectionStatistics) : ConnectionStatistics :=
  { s with peersInRetry := SizeT.inc s.peersInRetry }

def decrementPeersInRetry (s : ConnectionStatistics) : ConnectionStatistics :=
  { s with peersInRetry := SizeT.dec s.peersInRetry }

def incrementIpv4AddrInCache (s : ConnectionStatistics) : ConnectionStatistics :=
  if s.ipv4AddrInCache < 200 then { s with ipv4AddrInCache := SizeT.inc s.ipv4AddrInCache } else s

def decrementIpv4AddrInCache (s : ConnectionStatistics) : ConnectionStatistics :=
  { s with ipv4AddrInCache := SizeT.dec s.ipv4AddrInCache }

end ConnectionStatistics

/-! ### System calls -/

/-- How a call of `socket` returns, after those that `EINTR` broke off. -/
inductive SocketReturn where
  | opened (fd : Fd)
  | failed (errno : Int)

/-- `pconnect_return_t`, with the error of a failed `connect`. -/
inductive ConnectReturn where
  | connected
  | inprogress
  | failed (errno : Int)

structure ConnectCalls where
  socket : SocketReturn
  connect : ConnectReturn

inductive AcceptReturn where
  | accepted (fd : Fd) (addr : SockStore)
  | failed (errno : Int)

/-- The new descriptor. -/
def SocketReturn.fd? : SocketReturn → Option Fd
  | .opened fd => some fd
  | .failed _ => none

def AcceptReturn.fd? : AcceptReturn → Option Fd
  | .accepted fd _ => some fd
  | .failed _ => none

/-- The kernel accepts so many bytes, or all it was offered when those are less. -/
inductive SendReturn where
  | accepts (bytes : Nat)
  | failed (errno : Int)

/-- The kernel delivers these bytes, or as many of them as there is room for. That none are delivered
is how a closed stream shows. -/
inductive RecvReturn where
  | delivers (bytes : List Byte)
  | failed (errno : Int)

/-- `getsockopt` with `SO_ERROR`. -/
inductive SockoptReturn where
  | error (error : Int)
  | failed

/-- The results for the calls a socket callback makes, at most one of each. -/
structure SocketCalls where
  getsockopt : SockoptReturn
  recv : RecvReturn
  send : SendReturn

/-- What libev reports. An error comes with both conditions set, and with the watcher stopped, which
the callback then does again. -/
inductive Revents where
  | io (event : IoEvent)
  | error
  deriving DecidableEq

namespace World

variable (w : World)

/-- `connection_slot::object`. -/
def peer (i : ConnectionSlot) : PeerConnection := w.pool.object i

def setPeer (i : ConnectionSlot) (peer : PeerConnection) : World :=
  { w with pool := w.pool.setObject i peer }

def modifyPeer (i : ConnectionSlot) (f : PeerConnection → PeerConnection) : World :=
  w.setPeer i (f (w.peer i))

def check (a : Assertion) (holds : Bool) : World :=
  { w with failedAssertions := if holds then w.failedAssertions else a :: w.failedAssertions }

/-- `inbound_scheduler_t::send_notification`. -/
def sendNotification : World := { w with daemonSent := true }

/-! ### Sockets -/

def openFd (fd : Fd) : World := { w with kernel := w.kernel.opened fd }

def closeFd (socket : Option Fd) : World := { w with kernel := w.kernel.closed socket }

def transfer (socket : Option Fd) (f : Connection → Connection) : World :=
  { w with kernel := w.kernel.transferred socket f }

/-- `peer_nonblock_tcp::close_socket`. -/
def closeSocket (i : ConnectionSlot) : World :=
  (w.closeFd (w.peer i).tcp.socket).modifyPeer i fun peer => { peer with tcp := ⟨none, noError⟩ }

/-- `peer_nonblock_tcp::open_socket`. -/
def openSocket (i : ConnectionSlot) (domain : SaFamily) (call : SocketReturn) : World × Bool :=
  let fail (errno : Int) :=
    (w.modifyPeer i fun peer => { peer with tcp := { peer.tcp with perrno := errno } }, false)
  if (w.peer i).tcp.socket ≠ none then fail einval
  else if domain ≠ .afInet ∧ domain ≠ .afInet6 then fail eafnosupport
  else
    match call with
    | .failed errno => fail errno
    | .opened fd =>
        ((w.openFd fd).modifyPeer i fun peer => { peer with tcp := { peer.tcp with socket := some fd } },
          true)

/-- `peer_nonblock_tcp::pconnect`. -/
def pconnect (i : ConnectionSlot) (domain : SaFamily) (call : ConnectReturn) : World × ConnectReturn :=
  let finish (errno : Int) (resolve : ConnectReturn) :=
    (w.modifyPeer i fun peer => { peer with tcp := { peer.tcp with perrno := errno } }, resolve)
  if (w.peer i).tcp.socket = none then finish ebadf (.failed ebadf)
  else if domain ≠ .afInet ∧ domain ≠ .afInet6 then finish eafnosupport (.failed eafnosupport)
  else
    match call with
    | .connected => finish noError .connected
    | .inprogress => finish einprogress .inprogress
    | .failed errno => finish errno (.failed errno)

/-- `send_messages`: whether the transport is alright, and whether the buffer is empty. -/
def sendMessages (i : ConnectionSlot) (call : SendReturn) : World × Bool × Bool :=
  let peer := w.peer i
  match call with
  | .failed errno =>
      (w.setPeer i { peer with tcp := { peer.tcp with perrno := errno } }, errno == eagain,
        peer.sendBuffer.empty)
  | .accepts bytes =>
      let taken := (peer.sendBuffer.gather peer.sendBuffer.prepareRead).take bytes
      let sendBuffer := peer.sendBuffer.commitRead taken.length
      ((w.transfer peer.tcp.socket fun c => { c with sent := c.sent ++ taken }).setPeer i
          { peer with tcp := { peer.tcp with perrno := noError }, sendBuffer },
        true, sendBuffer.empty)

/-- `recv_messages`: whether the transport is alright. -/
def recvMessages (i : ConnectionSlot) (call : RecvReturn) : World × Bool :=
  let peer := w.peer i
  match call with
  | .failed errno =>
      (w.setPeer i { peer with tcp := { peer.tcp with perrno := errno } }, errno == eagain)
  | .delivers bytes =>
      let given := bytes.take peer.recvBuffer.prepareWrite.preparedBytes
      if given = [] then
        (w.setPeer i { peer with tcp := { peer.tcp with perrno := peerShutdown } }, false)
      else
        ((w.transfer peer.tcp.socket fun c => { c with received := c.received ++ given }).setPeer i
            { peer with
              tcp := { peer.tcp with perrno := noError }
              recvBuffer := peer.recvBuffer.produce given },
          true)

/-! ### The end of a connection attempt -/

/-- The branch on the source that follows the end of every attempt. -/
def singleResolved (source : Psource) : World :=
  let w := { w with statistics := w.statistics.singleResolved source }
  if source = .tcpServer then w else w.sendNotification

def deletePeerConnection (i : ConnectionSlot) : World :=
  let peer := w.peer i
  let w := { w with peers := Function.update w.peers peer.contact.endpoint none }
  let w := w.check .teardownSocket (peer.tcp.socket == none)
  { w with pool := (w.pool.setObject i peer.teardownConnection).release i }

def hardDeletePeerConnection (i : ConnectionSlot) : World :=
  ((w.closeSocket i).singleResolved (w.peer i).source).deletePeerConnection i

/-- `max_reties` is 3. -/
def handlePeerFailure (i : ConnectionSlot) : World :=
  let w := w.modifyPeer i fun peer => { peer with state := .failed, failures := peer.failures + 1 }
  let w := w.closeSocket i
  let peer := w.peer i
  let w := w.check .failureSource (peer.source != .null)
  let w := w.singleResolved peer.source
  if 3 ≤ peer.failures ∨ peer.source = .tcpServer then w.deletePeerConnection i
  else { w.setPeer i peer.awaitRetry with statistics := w.statistics.incrementFailed }

def handlePeerConnectionAndDispatch (i : ConnectionSlot) : World :=
  let w := w.modifyPeer i fun peer => { peer with state := .connected }.stopConnectionWatchers
  let peer := w.peer i
  let update : ConnectUpdate := ⟨i, peer.tcp.socket, w.pool.generation i⟩
  let connects := if w.connects.length < 50 then w.connects ++ [update] else w.connects
  let w := { w with
    connects
    statistics := w.statistics.incrementConnectedBittorrentPeers
    dispatched := (peer.tcp.socket.bind w.kernel) :: w.dispatched }
  w.singleResolved peer.source

/-! ### Outgoing connections -/

/-- `PeerConnectionManager::connect`. -/
def connect (i : ConnectionSlot) (calls : ConnectCalls) : World × Bool :=
  let w := w.check .connectSource ((w.peer i).source == .tracker)
  let domain := (w.peer i).store.saFamily
  match w.openSocket i domain calls.socket with
  | (w, false) => (w, false)
  | (w, true) =>
      match w.pconnect i domain calls.connect with
      | (w, .failed _) => (w.closeSocket i, false)
      | (w, .connected) =>
          (w.modifyPeer i fun peer => peer.connectedImmediately, true)
      | (w, .inprogress) => (w.modifyPeer i fun peer => peer.armConnectionWatchers .write, true)

def initiateConnect (i : ConnectionSlot) (calls : ConnectCalls) : World × Bool :=
  match w.connect i calls with
  | (w, true) => ({ w with statistics := w.statistics.incrementInboundInflight }, true)
  | (w, false) => (w, false)

/-- What the establisher does with the answer of the scheduler it called. -/
def schedulerReturns (answer : Bool) : World :=
  let (e₀, e₁, e₂) := w.empties
  let (empties, next) := match w.current with
    | .discovered => ((!answer, e₁, e₂), Spot.disconnected)
    | .disconnected => ((e₀, !answer, e₂), .failed)
    | .failed => ((e₀, e₁, !answer), .discovered)
  { w with
    empties
    current := next
    control := if empties = (true, true, true) then .eventLoop else .establishing }

/-- A turn of the `for` loop of `round_robin_establisher_scheduler`, up to the loop of the scheduler it
calls. -/
def establisherTurn : World :=
  if w.statistics.inboundInflight < 35 then
    match w.current with
    | .discovered =>
        if w.pool.available = 0 then w.schedulerReturns false else { w with control := .discovering }
    | .disconnected => { w with control := .reconnecting }
    | .failed => { w with control := .retrying }
  else { w with control := .eventLoop }

/-- `delete_peer_connection` when `initiate_connect` fails, and the next turn; else `return true`. -/
def afterInitiate (i : ConnectionSlot) : World × Bool → World
  | (w, true) => w.schedulerReturns true
  | (w, false) => w.deletePeerConnection i

/-- The peer of a new outgoing connection, in the slot acquired for it. -/
def initializeDiscovered (acquiredSlot : ConnectionSlot) (newEndpoint : PeerContact) : World :=
  let w := { w with peers := Function.update w.peers newEndpoint.endpoint (some acquiredSlot) }
  w.modifyPeer acquiredSlot fun peer => peer.initializeConnection newEndpoint .tracker .transport

/-- What `discovered_peer_scheduler` does with an endpoint from the cache. -/
def schedulePeer (newEndpoint : PeerContact) (calls : ConnectCalls) : World :=
  match w.pool.acquire with
  | none => (w.check .acquisitionSuccessful false).schedulerReturns false
  | some (acquiredSlot, pool) =>
      match w.peers newEndpoint.endpoint with
      | some _ => { w with pool := pool.release acquiredSlot }
      | none =>
          let w := { w with pool }.initializeDiscovered acquiredSlot newEndpoint
          afterInitiate acquiredSlot (w.initiateConnect acquiredSlot calls)

/-- A turn of the loop of `discovered_peer_scheduler`. -/
def discoveredTurn (calls : ConnectCalls) : World :=
  match w.cache.freshPop with
  | none => w.schedulerReturns false
  | some (newEndpoint, cache) =>
      { w with cache, statistics := w.statistics.decrementIpv4AddrInCache }.schedulePeer newEndpoint calls

/-- A turn of the loop of `disconnected_peer_scheduler`. -/
def disconnectedTurn (calls : ConnectCalls) : World :=
  match w.disconnects with
  | [] => w.schedulerReturns false
  | disconnected :: disconnects =>
      let w := { w with disconnects }
      let i := disconnected.peer
      if w.pool.generation i ≠ disconnected.generation then w
      else
        let w := w.modifyPeer i fun peer => { peer with state := .disconnected }
        let w := { w with statistics := w.statistics.decrementConnectedBittorrentPeers }
        if (w.peer i).tcp.perrno = peerShutdown ∨ (w.peer i).source = .tcpServer then
          w.deletePeerConnection i
        else
          let w := w.modifyPeer i fun peer => { peer with failures := peer.failures + 1 }
          afterInitiate i (w.initiateConnect i calls)

/-- A turn of the loop of `failed_peer_scheduler`. -/
def failedTurn (calls : ConnectCalls) : World :=
  match w.retryQueue with
  | [] => w.schedulerReturns false
  | failedPeer :: retryQueue =>
      let w := { w with retryQueue, statistics := w.statistics.decrementPeersInRetry }
      let i := failedPeer.connection
      if w.pool.generation i ≠ failedPeer.cachedGeneration then w
      else afterInitiate i (w.initiateConnect i calls)

/-! ### Discovered contacts -/

/-- A turn of the loop of `drain_discovered`, and what follows the loop. -/
def drainTurn : World :=
  match w.discoveries with
  | addr :: discoveries =>
      { w with
        discoveries
        cache := w.cache.push addr
        statistics := w.statistics.incrementIpv4AddrInCache }
  | [] =>
      let w := { w with control := .eventLoop }
      if w.statistics.hasMetConnectionQuota ∨ w.pool.available = 0 then w else w.sendNotification

/-! ### Incoming connections -/

/-- `handle_server_errno`. -/
def handleServerErrno (error : Int) : Bool := error = eintr ∨ error = econnaborted

/-- What an accept does to the peer that is managed under the same endpoint. -/
def replacePeer (mapped : ConnectionSlot) : World :=
  let oldPeer := w.peer mapped
  let w :=
    if oldPeer.state ≠ .connected then (w.closeSocket mapped).singleResolved oldPeer.source else w
  w.deletePeerConnection mapped

/-- Nothing is managed under this endpoint any more. -/
def makeWay (endpoint : Endpoint) : World :=
  match w.peers endpoint with
  | none => w
  | some mapped => w.replacePeer mapped

/-- The peer of an accepted connection, in the slot acquired for it. -/
def initializeAccepted (acquiredSlot : ConnectionSlot) (fd : Fd) (newStore : SockStore) : World :=
  let peerAddr := newStore.contact
  let w := { w with peers := Function.update w.peers peerAddr.endpoint (some acquiredSlot) }
  w.modifyPeer acquiredSlot fun peer =>
    ((peer.initializeConnection peerAddr .tcpServer .handshake).initializeServerSpecifics fd
      newStore).armConnectionWatchers .read

def acceptPeerConnection : AcceptReturn → World × Bool
  | .failed errno => (w, handleServerErrno errno)
  | .accepted fd newStore =>
      let w := w.openFd fd
      if w.pool.available = 0 then (w.closeFd (some fd), false)
      else
        let w := { w with statistics := w.statistics.incrementOutboundInflight }
        match w.pool.acquire with
        | none => (w.check .acquisitionSuccessful false, false)
        | some (acquiredSlot, pool) =>
            let w := { w with pool }.makeWay newStore.contact.endpoint
            (w.initializeAccepted acquiredSlot fd newStore, true)

/-- A turn of the loop of `server_socket_callback`; `max_outbound_inflight` is 15. -/
def acceptTurn (pendingAccepts : Bool) (call : AcceptReturn) : World :=
  if !w.statistics.hasMetConnectionQuota ∧ w.statistics.outboundInflight < 15 ∧ pendingAccepts then
    let (w, pendingAccepts) := w.acceptPeerConnection call
    { w with control := .accepting pendingAccepts }
  else { w with control := .eventLoop }

/-! ### Callbacks -/

/-- `peer_timer_callback`. libev has stopped the timer that expired. -/
def peerTimerCallback (i : ConnectionSlot) : World :=
  let w := w.modifyPeer i fun peer => { peer with forTimer := peer.forTimer.stop }
  let w := w.check .timerState ((w.peer i).state != .connected)
  if (w.peer i).state = .failed then
    let w := w.modifyPeer i fun peer => { peer.stopConnectionWatchers with state := .transport }
    let newFailure : PeerFailureUpdate := ⟨i, w.pool.generation i⟩
    { w with
      retryQueue := w.retryQueue ++ [newFailure]
      statistics := w.statistics.decrementFailed.incrementPeersInRetry }.sendNotification
  else w.handlePeerFailure i

/-- `peer_transport_level_connected`. -/
def peerTransportLevelConnected (i : ConnectionSlot) : SockoptReturn → World × Bool
  | .failed => (w.check .getsockopt false, true)
  | .error error =>
      if error ≠ 0 then
        (w.modifyPeer i fun peer => { peer with tcp := { peer.tcp with perrno := error } }, false)
      else (w, true)

section Handlers

variable (infoHash : Vector Byte 20)

/-- The handshake encoded into the peer's send buffer, from a cursor that was reset. -/
def encodeHandshake (i : ConnectionSlot) : World :=
  let w := w.check .sendBufferEmpty (w.peer i).sendBuffer.empty
  let encoded := Handshake.encode (Handshake.computeHandshake infoHash) (w.peer i).sendBuffer 0
  let w := w.modifyPeer i fun peer =>
    { peer with sendBuffer := encoded.buffer, outgoingFrameCursor := encoded.cursor }
  w.check .encodeCompleted encoded.complete

/-- The branch of `handle_peer_application_level_handshake` for a partly sent handshake. -/
def handshakeWrite (i : ConnectionSlot) (calls : SocketCalls) : World :=
  match w.sendMessages i calls.send with
  | (w, false, _) => w.handlePeerFailure i
  | (w, true, false) => w
  | (w, true, true) =>
      match (w.peer i).source with
      | .tracker => w.modifyPeer i fun peer => peer.modifyPeerSocketWEvent .read
      | .tcpServer => w.handlePeerConnectionAndDispatch i
      | .null => w

/-- The branch of `handle_peer_application_level_handshake` for received bytes. -/
def handshakeRead (i : ConnectionSlot) (calls : SocketCalls) : World :=
  match w.recvMessages i calls.recv with
  | (w, false) => w.handlePeerFailure i
  | (w, true) =>
      let peer := w.peer i
      match Handshake.decode peer.recvBuffer infoHash peer.contact.peerId with
      | (decoded, recvBuffer, peerId) =>
          let w := w.setPeer i { peer with recvBuffer, contact := { peer.contact with peerId } }
          if !decoded.complete then w
          else if !decoded.valid then w.hardDeletePeerConnection i
          else
            match peer.source with
            | .tracker => w.handlePeerConnectionAndDispatch i
            | .null => w
            | .tcpServer =>
                match (w.encodeHandshake infoHash i).sendMessages i calls.send with
                | (w, false, _) => w.handlePeerFailure i
                | (w, true, false) => w.modifyPeer i fun peer => peer.modifyPeerSocketWEvent .write
                | (w, true, true) => w.handlePeerConnectionAndDispatch i

/-- `handle_peer_application_level_handshake`. -/
def handlePeerApplicationLevelHandshake (i : ConnectionSlot) (event : IoEvent) (calls : SocketCalls) :
    World :=
  match event with
  | .write => w.handshakeWrite i calls
  | .read => w.handshakeRead infoHash i calls

/-- `handle_peer_transport_level_initiations`. -/
def handlePeerTransportLevelInitiations (i : ConnectionSlot) (event : IoEvent) (calls : SocketCalls) :
    World :=
  match event with
  | .read => w
  | .write =>
      match w.peerTransportLevelConnected i calls.getsockopt with
      | (w, false) => w.handlePeerFailure i
      | (w, true) =>
          let w := w.modifyPeer i fun peer => { peer with state := .handshake }
          match (w.encodeHandshake infoHash i).sendMessages i calls.send with
          | (w, false, _) => w.handlePeerFailure i
          | (w, true, true) => w.modifyPeer i fun peer => peer.modifyPeerSocketWEvent .read
          | (w, true, false) => w.modifyPeer i fun peer => peer.modifyPeerSocketWEvent .write

/-- `peer_socket_callback`. The event that was pending is no longer. -/
def peerSocketCallback (i : ConnectionSlot) (revents : Revents) (calls : SocketCalls) : World :=
  let w := w.modifyPeer i fun peer => { peer with forSock := { peer.forSock with fed := false } }
  let w := w.check .callbackState ((w.peer i).state != .connected)
  let w := w.check .callbackSource ((w.peer i).source != .null)
  if w.statistics.hasMetConnectionQuota then w.hardDeletePeerConnection i
  else
    match revents with
    | .error => w.handlePeerFailure i
    | .io event =>
        match (w.peer i).state with
        | .transport | .disconnected | .failed =>
            w.handlePeerTransportLevelInitiations infoHash i event calls
        | .handshake => w.handlePeerApplicationLevelHandshake infoHash i event calls
        | .null | .connected => w.hardDeletePeerConnection i

end Handlers

end World

/-! ### Runs -/

/-- The results of the system calls that a turn of a loop makes. -/
structure TurnCalls where
  connect : ConnectCalls
  accept : AcceptReturn

inductive Event where
  /-- A tracker pushes a contact and signals the manager. -/
  | discover (contact : PeerContact)
  /-- The transfer side pops a connect update and hands it to a session. -/
  | setEndpoint
  /-- The session with this index ends with this error, and the update is pushed if there is room. -/
  | endpointDisconnected (session : Nat) (perrno : Int)
  | drainDiscovered
  | notifyDisconnected
  | runDaemon
  | serverSocketCallback
  | timerExpires (i : ConnectionSlot)
  | socketReady (i : ConnectionSlot) (revents : Revents) (calls : SocketCalls)
  | turn (calls : TurnCalls)

namespace World

/-- The state after the constructor. -/
def initial : World where
  control := .eventLoop
  statistics := .zero
  pool := .initial 200 .fresh
  peers := fun _ => none
  discoveries := []
  cache := .initial 200 .fresh
  disconnects := []
  connects := []
  retryQueue := []
  current := .discovered
  empties := (false, false, false)
  discoveriesSent := false
  disconnectsSent := false
  daemonSent := false
  sessions := []
  kernel := fun _ => none
  failedAssertions := []
  dispatched := []

/-- A new descriptor is not one of the open ones. -/
def fdFree (w : World) : Option Fd → Bool
  | none => true
  | some fd => (w.kernel fd).isNone

/-- Whether libev calls the socket watcher back with these events. -/
def Ready (peer : PeerConnection) : Revents → Prop
  | .error => peer.forSock.active = true
  | .io event => (peer.forSock.active = true ∧ event = peer.forSock.event) ∨
      (peer.forSock.fed = true ∧ event = .write)

instance (peer : PeerConnection) (revents : Revents) : Decidable (Ready peer revents) := by
  cases revents <;> unfold Ready <;> infer_instance

/-- `PeerSession::endpoint_disconnected`, and the push of the update it returns. -/
def endSession (w : World) (session : PeerSession) (perrno : Int) : World :=
  let w := w.closeFd session.socket
  let update : DisconnectUpdate := ⟨session.peer, session.generation, perrno⟩
  { w with
    disconnects := if w.disconnects.length < 50 then w.disconnects ++ [update] else w.disconnects
    disconnectsSent := true }

/-- A turn of the loop the manager is in. -/
def turn (w : World) (calls : TurnCalls) : Option World :=
  match w.control with
  | .eventLoop => none
  | .draining => some w.drainTurn
  | .establishing => some w.establisherTurn
  | .discovering => some (w.discoveredTurn calls.connect)
  | .reconnecting => some (w.disconnectedTurn calls.connect)
  | .retrying => some (w.failedTurn calls.connect)
  | .accepting pendingAccepts => some (w.acceptTurn pendingAccepts calls.accept)

/-- A step, when it can be taken. A callback starts from the event loop. -/
def step (infoHash : Vector Byte 20) (w : World) : Event → Option World
  | .discover contact =>
      some { w with
        discoveries :=
          if w.discoveries.length < 100 then w.discoveries ++ [contact] else w.discoveries
        discoveriesSent := true }
  | .setEndpoint =>
      match w.connects with
      | [] => none
      | update :: connects =>
          some { w with
            connects
            sessions := w.sessions ++ [⟨update.peer, update.generation, update.socket⟩] }
  | .endpointDisconnected session perrno =>
      match w.sessions[session]? with
      | none => none
      | some ended =>
          some ({ w with sessions := w.sessions.eraseIdx session }.endSession ended perrno)
  | .drainDiscovered =>
      if w.control = .eventLoop ∧ w.discoveriesSent then
        some { w with control := .draining, discoveriesSent := false }
      else none
  | .notifyDisconnected =>
      if w.control = .eventLoop ∧ w.disconnectsSent then
        some { w with disconnectsSent := false }.sendNotification
      else none
  | .runDaemon =>
      if w.control = .eventLoop ∧ w.daemonSent then
        some { w with control := .establishing, daemonSent := false }
      else none
  | .serverSocketCallback =>
      if w.control = .eventLoop then some { w with control := .accepting true } else none
  | .timerExpires i =>
      if w.control = .eventLoop ∧ (w.peer i).forTimer.active then some (w.peerTimerCallback i)
      else none
  | .socketReady i revents calls =>
      if w.control = .eventLoop ∧ Ready (w.peer i) revents then
        some (w.peerSocketCallback infoHash i revents calls)
      else none
  | .turn calls =>
      if w.fdFree calls.connect.socket.fd? ∧ w.fdFree calls.accept.fd? then
        w.turn calls
      else none

end World

/-- `PeerConnectionManager` for a torrent, among the trackers, the transfer side and the kernel. -/
def managerMachine (infoHash : Vector Byte 20) : Machine World Event where
  Init w := w = .initial
  Step w e w' := w.step infoHash e = some w'

namespace World

/-- The state that the events lead to, when each is allowed and can be taken. -/
def after (infoHash : Vector Byte 20) (allowed : World → Event → Bool) (w : World) (es : List Event) :
    World :=
  (Machine.replay allowed (step infoHash) w es).getD w

theorem after_run {infoHash : Vector Byte 20} {allowed : World → Event → Bool} {w : World} {es : List Event}
    (h : (Machine.replay allowed (step infoHash) w es).isSome) :
    (managerMachine infoHash).Run w es (w.after infoHash allowed es) :=
  .replay_getD (fun _ _ _ h => h) h

end World

end TorrentEngine
