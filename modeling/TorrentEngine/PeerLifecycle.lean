import TorrentEngine.PeerConnectionManager

/-! The life of a slot, without the loops and queues that drive it. A slot is free, or the peer in it is
attempting a connection, has failed, waits for a retry or is connected; a ledger holds the slots with
everything that refers to them, and a move takes one slot from one stage to the next. -/

open Transition

namespace TorrentEngine

/-! ### Stages -/

namespace PeerConnection

/-- A connection attempt in progress: its socket is open, and both watchers are armed. -/
structure InFlight (p : PeerConnection) : Prop where
  source : p.source ≠ .null
  state : p.state = .transport ∨ p.state = .handshake
  server : p.source = .tcpServer → p.state = .handshake
  socket : p.tcp.socket ≠ none
  sock : p.forSock.active = true
  timer : p.forTimer.active = true

/-- A failed attempt: the timer will bring it back. -/
structure Failed (p : PeerConnection) : Prop where
  source : p.source = .tracker
  state : p.state = .failed
  socket : p.tcp.socket = none
  sock : p.forSock.Stopped
  timer : p.forTimer.active = true
  buffers : p.BuffersReset

/-- A failed attempt that the retry queue will bring back. -/
structure Waiting (p : PeerConnection) : Prop where
  source : p.source = .tracker
  state : p.state = .transport
  socket : p.tcp.socket = none
  sock : p.forSock.Stopped
  timer : p.forTimer.active = false
  buffers : p.BuffersReset

/-- A peer that was handed to the transfer side. Its socket stays recorded. -/
structure Connected (p : PeerConnection) : Prop where
  source : p.source ≠ .null
  state : p.state = .connected
  socket : p.tcp.socket ≠ none
  sock : p.forSock.Stopped
  timer : p.forTimer.active = false

/-- The stages of the peer in an occupied slot. -/
inductive Staged (p : PeerConnection) : Prop
  | inFlight : p.InFlight → Staged p
  | failed : p.Failed → Staged p
  | waiting : p.Waiting → Staged p
  | connected : p.Connected → Staged p

variable {p : PeerConnection}

theorem InFlight.not_vacant (h : p.InFlight) : ¬ p.Vacant := fun hv => h.source hv.source

theorem InFlight.not_waiting (h : p.InFlight) : ¬ p.Waiting := fun hw => h.socket hw.socket

theorem InFlight.state_ne (h : p.InFlight) : p.state ≠ .connected := by
  rcases h.state with hs | hs <;> rw [hs] <;> decide

theorem InFlight.not_connected (h : p.InFlight) : ¬ p.Connected := fun hc => h.state_ne hc.state

theorem Failed.not_inFlight (h : p.Failed) : ¬ p.InFlight := fun hf => hf.socket h.socket

theorem Failed.not_waiting (h : p.Failed) : ¬ p.Waiting := fun hw => by
  have hs := h.state
  rw [hw.state] at hs
  cases hs

theorem Failed.not_connected (h : p.Failed) : ¬ p.Connected := fun hc => hc.socket h.socket

theorem Failed.not_vacant (h : p.Failed) : ¬ p.Vacant := fun hv => by
  have hs := h.state
  rw [hv.state] at hs
  cases hs

theorem Waiting.not_vacant (h : p.Waiting) : ¬ p.Vacant := fun hv => by
  have hs := h.source
  rw [hv.source] at hs
  cases hs

theorem Waiting.not_connected (h : p.Waiting) : ¬ p.Connected := fun hc => hc.socket h.socket

theorem Connected.not_vacant (h : p.Connected) : ¬ p.Vacant := fun hv => h.source hv.source

theorem Staged.not_vacant (h : p.Staged) : ¬ p.Vacant := by
  cases h with
  | inFlight h => exact h.not_vacant
  | failed h => exact h.not_vacant
  | waiting h => exact h.not_vacant
  | connected h => exact h.not_vacant

/-- Only a failed attempt is marked so. -/
theorem Staged.failed_of_state (h : p.Staged) (hstate : p.state = .failed) : p.Failed := by
  cases h with
  | failed h => exact h
  | inFlight h => rcases h.state with hs | hs <;> cases hs.symm.trans hstate
  | waiting h => cases h.state.symm.trans hstate
  | connected h => cases h.state.symm.trans hstate

/-- A peer with a watcher that can be called back for its socket is in flight. -/
theorem Staged.inFlight_of_sock (h : p.Staged) (hsock : ¬ p.forSock.Stopped) : p.InFlight := by
  cases h with
  | inFlight h => exact h
  | failed h => exact absurd h.sock hsock
  | waiting h => exact absurd h.sock hsock
  | connected h => exact absurd h.sock hsock

end PeerConnection

/-! ### What the two ends of a connection have seen of the handshakes -/

/-- The manager's handshake has been sent, and one for the same torrent received. -/
structure Complete (infoHash : Vector Byte 20) (c : Connection) : Prop where
  sent : c.sent = Handshake.computeHandshake infoHash
  received : c.received.length = 68
  infoHash_eq : Handshake.infoHashField c.received = infoHash.toList

/-- The receive buffer holds what was received so far, less than a handshake. -/
structure Receiving (p : PeerConnection) (c : Connection) : Prop where
  wellFormed : p.recvBuffer.WellFormed
  read : p.recvBuffer.read = 0
  contents : p.recvBuffer.contents = c.received
  short : p.recvBuffer.readable < 68

/-- The send buffer holds what is left to send of the handshake. -/
structure Sending (infoHash : Vector Byte 20) (p : PeerConnection) (c : Connection) : Prop where
  wellFormed : p.sendBuffer.WellFormed
  contents : c.sent ++ p.sendBuffer.contents = Handshake.computeHandshake infoHash

/-- How far the handshakes of an attempt are. -/
inductive Progress (infoHash : Vector Byte 20) (p : PeerConnection) (c : Connection) : Prop
  | connecting : p.source = .tracker → p.state = .transport → p.forSock.event = .write →
      p.BuffersReset → c = .fresh → Progress infoHash p c
  | sending : p.source = .tracker → p.state = .handshake → p.forSock.event = .write →
      Sending infoHash p c → Receiving p c → Progress infoHash p c
  | awaiting : p.source = .tracker → p.state = .handshake → p.forSock.event = .read →
      c.sent = Handshake.computeHandshake infoHash → Receiving p c → Progress infoHash p c
  | receiving : p.source = .tcpServer → p.state = .handshake → p.forSock.event = .read →
      p.sendBuffer.write = 0 → p.sendBuffer.readable = 0 → p.sendBuffer.read = 0 → c.sent = [] →
      Receiving p c → Progress infoHash p c
  | answering : p.source = .tcpServer → p.state = .handshake → p.forSock.event = .write →
      Sending infoHash p c → c.received.length = 68 →
      Handshake.infoHashField c.received = infoHash.toList → Progress infoHash p c

section

variable {infoHash : Vector Byte 20} {p q : PeerConnection} {c c' : Connection}

theorem Receiving.congr (h : Receiving p c) (hbuffer : q.recvBuffer = p.recvBuffer)
    (hreceived : c'.received = c.received) : Receiving q c' := by
  obtain ⟨hwf, hread, hcontents, hshort⟩ := h
  rw [← hbuffer] at hwf hread hcontents hshort
  exact ⟨hwf, hread, hcontents.trans hreceived.symm, hshort⟩

theorem Sending.congr (h : Sending infoHash p c) (hbuffer : q.sendBuffer = p.sendBuffer)
    (hsent : c'.sent = c.sent) : Sending infoHash q c' := by
  obtain ⟨hwf, hcontents⟩ := h
  rw [← hbuffer] at hwf hcontents
  exact ⟨hwf, hsent ▸ hcontents⟩

end

/-! ### The ledger -/

/-- The slots, who refers to them, and the descriptors they record. -/
@[ext] structure Ledger where
  object : ConnectionSlot → PeerConnection
  generation : ConnectionSlot → Nat
  occupied : ConnectionSlot → Bool
  peers : Endpoint → Option ConnectionSlot
  retryQueue : List PeerFailureUpdate
  connects : List ConnectUpdate
  sessions : List PeerSession
  disconnects : List DisconnectUpdate
  kernel : Kernel
  /-- The counters, without the one for the cache. -/
  statistics : ConnectionStatistics
  /-- How often a peer was torn down with its socket recorded. -/
  poisoned : Nat
  /-- How often a slot was asked for in vain. -/
  exhausted : Nat
  dispatched : List (Option Connection)

/-- A kind of move, with the slot it is about. -/
inductive Move where
  | quiet
  | setEndpoint
  | endSession
  | dropDisconnect
  | dropRetry
  /-- A free slot is acquired and released again. -/
  | recycle (x : ConnectionSlot)
  | discover (x : ConnectionSlot) (immediate : Bool)
  | retry (i : ConnectionSlot) (immediate : Bool)
  /-- A peer from the retry queue is deleted. -/
  | abandon (i : ConnectionSlot)
  | accept (x : ConnectionSlot)
  /-- A managed peer makes way for an accepted connection from its endpoint. -/
  | replace (i : ConnectionSlot)
  | disconnect (i : ConnectionSlot)
  | progress (i : ConnectionSlot)
  | fail (i : ConnectionSlot)
  /-- A peer in flight is deleted. -/
  | discard (i : ConnectionSlot)
  | dispatch (i : ConnectionSlot)
  | requeue (i : ConnectionSlot)
  deriving DecidableEq

def Move.slot : Move → Option ConnectionSlot
  | .quiet | .setEndpoint | .endSession | .dropDisconnect | .dropRetry => none
  | .recycle i | .discover i _ | .retry i _ | .abandon i | .accept i | .replace i | .disconnect i
  | .progress i | .fail i | .discard i | .dispatch i | .requeue i => some i

namespace Ledger

variable (v : Ledger)

/-- The slot and the generation in each update and session between dispatch and disconnect. -/
def references : List (ConnectionSlot × Nat) :=
  v.connects.map (fun u => (u.peer, u.generation)) ++
    v.sessions.map (fun s => (s.peer, s.generation)) ++
      v.disconnects.map fun d => (d.peer, d.generation)

/-- The descriptors that were handed to the transfer side. -/
def held : List Fd :=
  v.connects.filterMap (fun u => u.socket) ++ v.sessions.filterMap fun s => s.socket

def set (i : ConnectionSlot) (p : PeerConnection) : Ledger :=
  { v with object := Function.update v.object i p }

/-- The slot is given back with a torn down peer in it. -/
def vacate (i : ConnectionSlot) (p : PeerConnection) : Ledger :=
  { v with
    object := Function.update v.object i p
    generation := Function.update v.generation i (v.generation i + 1)
    occupied := Function.update v.occupied i false
    peers := Function.update v.peers (v.object i).contact.endpoint none }

/-- The slot is taken by a new peer. -/
def occupy (x : ConnectionSlot) (p : PeerConnection) : Ledger :=
  { v with
    object := Function.update v.object x p
    occupied := Function.update v.occupied x true
    peers := Function.update v.peers p.contact.endpoint (some x) }

/-- The socket of a slot is closed and its attempt counted as ended. -/
def resolve (i : ConnectionSlot) : Ledger :=
  { v with
    kernel := v.kernel.closed (v.object i).tcp.socket
    statistics := v.statistics.singleResolved (v.object i).source }

/-- The peer a new outgoing attempt leaves in its slot. -/
structure Outgoing (p : PeerConnection) (fd : Fd) (immediate : Bool) : Prop where
  inFlight : p.InFlight
  source : p.source = .tracker
  socket : p.tcp.socket = some fd
  buffers : p.BuffersReset
  transport : immediate = false →
    p.state = .transport ∧ p.forSock.event = .write ∧ p.forSock.fed = false

/-- The peer an accepted connection leaves in its slot. -/
structure Incoming (p : PeerConnection) (fd : Fd) : Prop where
  inFlight : p.InFlight
  source : p.source = .tcpServer
  socket : p.tcp.socket = some fd
  buffers : p.BuffersReset
  event : p.forSock.event = .read
  fed : p.forSock.fed = false

/-- What a peer keeps while a callback works on it. -/
structure SameAttempt (p q : PeerConnection) : Prop where
  source : q.source = p.source
  endpoint : q.contact.endpoint = p.contact.endpoint
  socket : q.tcp.socket = p.tcp.socket

theorem SameAttempt.refl (p : PeerConnection) : SameAttempt p p := ⟨rfl, rfl, rfl⟩

theorem SameAttempt.trans {p q r : PeerConnection} (h : SameAttempt p q) (h' : SameAttempt q r) :
    SameAttempt p r :=
  ⟨h'.source.trans h.source, h'.endpoint.trans h.endpoint, h'.socket.trans h.socket⟩

/-- Only the connection behind the socket may have changed, and nothing was opened or closed. -/
structure OnlyAt (socket : Option Fd) (kernel kernel' : Kernel) : Prop where
  off : ∀ fd, socket ≠ some fd → kernel' fd = kernel fd
  isSome : ∀ fd, (kernel' fd).isSome = (kernel fd).isSome

theorem OnlyAt.refl (socket : Option Fd) (kernel : Kernel) : OnlyAt socket kernel kernel :=
  ⟨fun _ _ => rfl, fun _ => rfl⟩

theorem OnlyAt.trans {socket : Option Fd} {k₁ k₂ k₃ : Kernel} (h : OnlyAt socket k₁ k₂)
    (h' : OnlyAt socket k₂ k₃) : OnlyAt socket k₁ k₃ :=
  ⟨fun fd hfd => (h'.off fd hfd).trans (h.off fd hfd), fun fd => (h'.isSome fd).trans (h.isSome fd)⟩

/-- The connection behind the socket of a peer. -/
def connection (kernel : Kernel) (p : PeerConnection) : Option Connection := p.tcp.socket.bind kernel

variable (infoHash : Vector Byte 20)

/-- What a move does. The peers and connections it leaves are described, not computed. -/
def Step : Ledger → Move → Ledger → Prop
  | v, .quiet, v' => v' = v
  | v, .setEndpoint, v' => ∃ u us, v.connects = u :: us ∧
      v' = { v with connects := us, sessions := v.sessions ++ [⟨u.peer, u.generation, u.socket⟩] }
  | v, .endSession, v' => ∃ k s ds, v.sessions[k]? = some s ∧
      (ds = v.disconnects ∨ ∃ perrno, ds = v.disconnects ++ [⟨s.peer, s.generation, perrno⟩]) ∧
      v' = { v with
        sessions := v.sessions.eraseIdx k, kernel := v.kernel.closed s.socket, disconnects := ds }
  | v, .dropDisconnect, v' => ∃ d ds, v.disconnects = d :: ds ∧ v.generation d.peer ≠ d.generation ∧
      v' = { v with disconnects := ds }
  | v, .dropRetry, v' => ∃ r rs, v.retryQueue = r :: rs ∧
      v.generation r.connection ≠ r.cachedGeneration ∧
      v' = { v with retryQueue := rs, statistics := v.statistics.decrementPeersInRetry }
  | v, .recycle x, v' => v.occupied x = false ∧ ∃ p n, p.Vacant ∧
      p.tcp.socket = (v.object x).tcp.socket ∧ (p.tcp.socket = none → n = v.poisoned) ∧
      v' = { v.set x p with
        generation := Function.update v.generation x (v.generation x + 1), poisoned := n }
  | v, .discover x immediate, v' => v.occupied x = false ∧ (v.object x).tcp.socket = none ∧
      ∃ p fd, Outgoing p fd immediate ∧ v.kernel fd = none ∧ v.peers p.contact.endpoint = none ∧
      v' = { v.occupy x p with
        kernel := v.kernel.opened fd, statistics := v.statistics.incrementInboundInflight }
  | v, .retry i immediate, v' => v.occupied i = true ∧ (v.object i).Waiting ∧
      ∃ p fd rs, Outgoing p fd immediate ∧ v.kernel fd = none ∧
      v.retryQueue = ⟨i, v.generation i⟩ :: rs ∧
      p.contact.endpoint = (v.object i).contact.endpoint ∧
      v' = { v.set i p with
        retryQueue := rs
        kernel := v.kernel.opened fd
        statistics := v.statistics.decrementPeersInRetry.incrementInboundInflight }
  | v, .abandon i, v' => v.occupied i = true ∧ (v.object i).Waiting ∧
      ∃ p rs, p.Vacant ∧ p.tcp.socket = none ∧ v.retryQueue = ⟨i, v.generation i⟩ :: rs ∧
      v' = { v.vacate i p with
        retryQueue := rs, statistics := v.statistics.decrementPeersInRetry }
  | v, .accept x, v' => v.occupied x = false ∧
      ∃ p fd, Incoming p fd ∧ v.kernel fd = none ∧ v.peers p.contact.endpoint = none ∧
      v' = { v.occupy x p with
        kernel := v.kernel.opened fd, statistics := v.statistics.incrementOutboundInflight }
  | v, .replace i, v' => v.occupied i = true ∧ ∃ p, p.Vacant ∧
      (((v.object i).state ≠ .connected ∧ p.tcp.socket = none ∧ v' = (v.resolve i).vacate i p) ∨
        ((v.object i).state = .connected ∧ p.tcp.socket = (v.object i).tcp.socket ∧
          v' = { v.vacate i p with poisoned := v.poisoned + 1 }))
  | v, .disconnect i, v' => v.occupied i = true ∧ (v.object i).Connected ∧
      ∃ p d ds, p.Vacant ∧ p.tcp.socket = (v.object i).tcp.socket ∧
      v.disconnects = d :: ds ∧ d.peer = i ∧ d.generation = v.generation i ∧
      v' = { v.vacate i p with
        disconnects := ds
        poisoned := v.poisoned + 1
        statistics := v.statistics.decrementConnectedBittorrentPeers }
  | v, .progress i, v' => v.occupied i = true ∧ (v.object i).InFlight ∧
      ∃ p kernel, p.InFlight ∧ SameAttempt (v.object i) p ∧
      OnlyAt (v.object i).tcp.socket v.kernel kernel ∧ v' = { v.set i p with kernel } ∧
      ((v.object i).forSock.fed = false → p.forSock.fed = false) ∧
      ∀ c, (v.object i).forSock.fed = false → connection v.kernel (v.object i) = some c →
        Progress infoHash (v.object i) c →
          ∃ c', connection kernel p = some c' ∧ Progress infoHash p c'
  | v, .fail i, v' => v.occupied i = true ∧ (v.object i).InFlight ∧ (v.object i).source = .tracker ∧
      ∃ p, p.Failed ∧ p.contact.endpoint = (v.object i).contact.endpoint ∧
      v' = { (v.resolve i).set i p with
        statistics := v.statistics.singleInboundResolved.incrementFailed }
  | v, .discard i, v' => v.occupied i = true ∧ (v.object i).InFlight ∧
      ∃ p, p.Vacant ∧ p.tcp.socket = none ∧ v' = (v.resolve i).vacate i p
  | v, .dispatch i, v' => v.occupied i = true ∧ (v.object i).InFlight ∧
      ∃ p kernel cs, p.Connected ∧ SameAttempt (v.object i) p ∧
      OnlyAt (v.object i).tcp.socket v.kernel kernel ∧
      (50 ≤ v.connects.length ∧ cs = v.connects ∨
        cs = v.connects ++ [⟨i, p.tcp.socket, v.generation i⟩]) ∧
      (∀ c, (v.object i).forSock.fed = false → connection v.kernel (v.object i) = some c →
        Progress infoHash (v.object i) c → ∃ c', connection kernel p = some c' ∧ Complete infoHash c') ∧
      v' = { v.set i p with
        kernel
        connects := cs
        statistics :=
          v.statistics.incrementConnectedBittorrentPeers.singleResolved (v.object i).source
        dispatched := connection kernel p :: v.dispatched }
  | v, .requeue i, v' => v.occupied i = true ∧ (v.object i).Failed ∧
      ∃ p, p.Waiting ∧ p.contact.endpoint = (v.object i).contact.endpoint ∧
      v' = { v.set i p with
        retryQueue := v.retryQueue ++ [⟨i, v.generation i⟩]
        statistics := v.statistics.decrementFailed.incrementPeersInRetry }

end Ledger

/-- A step of an attempt that leaves its state and its timer alone. -/
theorem PeerConnection.InFlight.same {p q : PeerConnection} (hflight : p.InFlight) (h : Ledger.SameAttempt p q)
    (hstate : q.state = p.state) (hsock : q.forSock.active = true) (htimer : q.forTimer = p.forTimer) :
    q.InFlight where
  source := h.source ▸ hflight.source
  state := hstate ▸ hflight.state
  server hsource := hstate.trans (hflight.server (h.source.symm.trans hsource))
  socket := h.socket ▸ hflight.socket
  sock := hsock
  timer := htimer ▸ hflight.timer

end TorrentEngine
