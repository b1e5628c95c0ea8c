import TorrentEngine.Handshake

/-! `PeerConnection`: the object that a slot of the connection pool holds, with its socket, its two
buffers and its two watchers. Descriptors are natural numbers, and `-1` is none. -/

namespace TorrentEngine

abbrev Fd := Nat

/-- The values of `errno` and of the two `perrno` constants that the code compares with. -/
def peerShutdown : Int := -100
def noError : Int := -1
def eintr : Int := 4
def ebadf : Int := 9
def eagain : Int := 11
def einval : Int := 22
def eafnosupport : Int := 97
def econnaborted : Int := 103
def einprogress : Int := 115

inductive Pstate where
  | null
  | transport
  | handshake
  | connected
  | disconnected
  | failed
  deriving DecidableEq, Repr

inductive Psource where
  | null
  | tracker
  | tcpServer
  deriving DecidableEq, Repr

/-- `peer_sock_store_t`: a socket address, all zero before one is written to it. -/
inductive SockStore where
  | zero
  | ipv4 (addr : Vector Byte 4) (port : Byte × Byte)
  | ipv6 (addr : Vector Byte 16) (port : Byte × Byte)

/-- `sa_family`. -/
inductive SaFamily where
  | afUnspec
  | afInet
  | afInet6
  deriving DecidableEq

def SockStore.saFamily : SockStore → SaFamily
  | .zero => .afUnspec
  | .ipv4 .. => .afInet
  | .ipv6 .. => .afInet6

/-- `peer_nonblock_tcp`. -/
structure PeerTcp where
  socket : Option Fd
  perrno : Int

/-- What a watcher for a socket waits for. -/
inductive IoEvent where
  | read
  | write
  deriving DecidableEq, Repr

/-- `ev::io`. A watcher that was fed an event is called back for it even when the socket shows none. -/
structure IoWatcher where
  active : Bool
  fd : Option Fd
  event : IoEvent
  fed : Bool

/-- `ev::timer` without a repeat. -/
structure TimerWatcher where
  active : Bool
  after : Nat

structure PeerConnection where
  tcp : PeerTcp
  store : SockStore
  recvBuffer : IoRingBuffer 68
  sendBuffer : IoRingBuffer 68
  forSock : IoWatcher
  forTimer : TimerWatcher
  contact : PeerContact
  state : Pstate
  source : Psource
  outgoingFrameCursor : Nat
  failures : Nat

namespace IoWatcher

/-- Stopping a watcher also drops its pending events. -/
def stop (w : IoWatcher) : IoWatcher := { w with active := false, fed := false }

def set (w : IoWatcher) (fd : Option Fd) (event : IoEvent) : IoWatcher := { w with fd, event }

def start (w : IoWatcher) : IoWatcher := { w with active := true }

def feedEvent (w : IoWatcher) : IoWatcher := { w with fed := true }

/-- The watcher can be called back for nothing. -/
def Stopped (w : IoWatcher) : Prop := w.active = false ∧ w.fed = false

end IoWatcher

namespace TimerWatcher

def stop (w : TimerWatcher) : TimerWatcher := { w with active := false }

def set (w : TimerWatcher) (after : Nat) : TimerWatcher := { w with after }

def start (w : TimerWatcher) : TimerWatcher := { w with active := true }

end TimerWatcher

namespace PeerConnection

/-- A default-constructed connection. -/
def fresh : PeerConnection where
  tcp := ⟨none, noError⟩
  store := .zero
  recvBuffer := .initial 68 fun _ => 0
  sendBuffer := .initial 68 fun _ => 0
  forSock := ⟨false, none, .read, false⟩
  forTimer := ⟨false, 0⟩
  contact := .fresh
  state := .null
  source := .null
  outgoingFrameCursor := 0
  failures := 0

/-- `initialize_connection`. -/
def initializeConnection (peer : PeerConnection) (endpoint : PeerContact) (source : Psource)
    (state : Pstate) : PeerConnection :=
  { peer with
    contact := endpoint
    source
    state
    store :=
      if source = .tracker then
        if endpoint.isV6 then .ipv6 endpoint.nAddr endpoint.nPort
        else .ipv4 (.ofFn fun i => endpoint.nAddr[i.castLE (by decide : 4 ≤ 16)]) endpoint.nPort
      else peer.store }

/-- `initialize_server_specifics`. -/
def initializeServerSpecifics (peer : PeerConnection) (socket : Fd) (store : SockStore) : PeerConnection :=
  { peer with tcp := { peer.tcp with socket := some socket }, store }

def stopConnectionWatchers (peer : PeerConnection) : PeerConnection :=
  { peer with forSock := peer.forSock.stop, forTimer := peer.forTimer.stop }

/-- `teardown_connection` after its assertion. The socket stays recorded. -/
def teardownConnection (peer : PeerConnection) : PeerConnection :=
  { peer with
    store := .zero
    recvBuffer := peer.recvBuffer.reset
    sendBuffer := peer.sendBuffer.reset
    forSock := { peer.forSock.stop with fd := none }
    forTimer := peer.forTimer.stop
    contact := .fresh
    state := .null
    source := .null
    outgoingFrameCursor := 0
    failures := 0 }

/-- What `handle_peer_failure` does to a peer that it keeps; `retry_timeout` is 15. -/
def awaitRetry (peer : PeerConnection) : PeerConnection :=
  let peer := peer.stopConnectionWatchers
  { peer with
    outgoingFrameCursor := 0
    recvBuffer := peer.recvBuffer.reset
    sendBuffer := peer.sendBuffer.reset
    forTimer := (peer.forTimer.set (15 * peer.failures)).start }

def modifyPeerSocketWEvent (peer : PeerConnection) (event : IoEvent) : PeerConnection :=
  { peer with forSock := (peer.forSock.stop.set peer.tcp.socket event).start }

/-- `arm_connection_watchers`, with `connect_timeout`. -/
def armConnectionWatchers (peer : PeerConnection) (event : IoEvent) : PeerConnection :=
  let peer := peer.modifyPeerSocketWEvent event
  { peer with forTimer := (peer.forTimer.stop.set 10).start }

/-- What `connect` does to a peer whose socket is connected at once. -/
def connectedImmediately (peer : PeerConnection) : PeerConnection :=
  let peer := peer.armConnectionWatchers .write
  { peer with state := .handshake, forSock := peer.forSock.feedEvent }

/-- Both buffers are empty and start at their origin. -/
structure BuffersReset (peer : PeerConnection) : Prop where
  recv_read : peer.recvBuffer.read = 0
  recv_write : peer.recvBuffer.write = 0
  recv_readable : peer.recvBuffer.readable = 0
  send_read : peer.sendBuffer.read = 0
  send_write : peer.sendBuffer.write = 0
  send_readable : peer.sendBuffer.readable = 0

/-- The peer of a free slot, apart from the socket it records. -/
structure Vacant (peer : PeerConnection) : Prop where
  state : peer.state = .null
  source : peer.source = .null
  sock : peer.forSock.Stopped
  timer : peer.forTimer.active = false
  buffers : peer.BuffersReset
  failures : peer.failures = 0

theorem fresh_vacant : fresh.Vacant :=
  ⟨rfl, rfl, ⟨rfl, rfl⟩, rfl, ⟨rfl, rfl, rfl, rfl, rfl, rfl⟩, rfl⟩

theorem teardownConnection_vacant (peer : PeerConnection) : peer.teardownConnection.Vacant :=
  ⟨rfl, rfl, ⟨rfl, rfl⟩, rfl, ⟨rfl, rfl, rfl, rfl, rfl, rfl⟩, rfl⟩

end PeerConnection

/-- The contact that `accept_peer_connection` takes from the address of an accepted connection. The test of a
version 6 address is `IN6_IS_ADDR_V4MAPPED`. -/
def SockStore.contact : SockStore → PeerContact
  | .zero => .fresh
  | .ipv4 addr port =>
      { PeerContact.fresh with nAddr := PeerContact.copyInto (.replicate 16 0) addr.toList, nPort := port }
  | .ipv6 addr port =>
      if addr.toList.take 12 = List.replicate 10 0 ++ [0xff, 0xff] then
        { PeerContact.fresh with
          nAddr := PeerContact.copyInto (.replicate 16 0) (addr.toList.drop 12), nPort := port }
      else { PeerContact.fresh with nAddr := addr, nPort := port, isV6 := true }

end TorrentEngine
