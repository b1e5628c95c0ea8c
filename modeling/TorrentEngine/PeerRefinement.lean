import TorrentEngine.PeerRegistry

/-! Every step of the manager is a move of its ledger, or two when an accepted connection replaces a
peer. The proofs follow the functions of the source: what a callback does to its peer before it ends in
one of the four functions that take the peer to another stage, and what each of these does. -/

open Transition

namespace TorrentEngine

open PeerConnection Ledger

namespace World

variable {w w₁ w₂ w' : World} {i : ConnectionSlot} {infoHash : Vector Byte 20} {e : Event}

/-- How often the assertion in `teardown_connection` has failed. -/
@[irreducible] def teardownFailures (failed : List Assertion) : Nat := failed.count .teardownSocket

/-- How often an assertion that a slot was acquired has failed. -/
@[irreducible] def acquisitionFailures (failed : List Assertion) : Nat :=
  failed.count .acquisitionSuccessful

/-- The ledger of a state. The counter for the cache is left out. -/
def ledger (w : World) : Ledger where
  object := w.pool.object
  generation := w.pool.generation
  occupied := w.pool.occupied
  peers := w.peers
  retryQueue := w.retryQueue
  connects := w.connects
  sessions := w.sessions
  disconnects := w.disconnects
  kernel := w.kernel
  statistics := { w.statistics with ipv4AddrInCache := 0 }
  poisoned := teardownFailures w.failedAssertions
  exhausted := acquisitionFailures w.failedAssertions
  dispatched := w.dispatched

/-! ### What causes a move -/

/-- The accept loop is entered once more, with room for a connection. -/
def Accepts (w : World) (e : Event) : Prop :=
  ∃ calls, e = .turn calls ∧ w.control = .accepting true ∧
    w.statistics.hasMetConnectionQuota = false ∧ w.statistics.outboundInflight < 15

/-- The step accepts a connection from the endpoint of the peer in this slot. -/
def Replaces (w : World) (e : Event) (i : ConnectionSlot) : Prop :=
  ∃ calls fd addr, e = .turn calls ∧ w.control = .accepting true ∧
    w.statistics.hasMetConnectionQuota = false ∧ w.statistics.outboundInflight < 15 ∧
    w.pool.available ≠ 0 ∧ calls.accept = .accepted fd addr ∧ w.peers addr.contact.endpoint = some i

/-- The step drains a disconnect update as new as its slot, which is this one. -/
def DrainsDisconnect (w : World) (e : Event) (i : ConnectionSlot) : Prop :=
  ∃ calls d ds, e = .turn calls ∧ w.control = .reconnecting ∧ w.disconnects = d :: ds ∧
    d.peer = i ∧ d.generation = w.pool.generation i

/-- A scheduler finds a peer to connect to, a discovered contact that is not managed or a retry as new
as its slot, and the kernel opens a socket and returns this from `connect`. -/
def Connects (w : World) (e : Event) (result : ConnectReturn) : Prop :=
  ∃ calls fd, e = .turn calls ∧ calls.connect = ⟨.opened fd, result⟩ ∧
    ((w.control = .discovering ∧
        ∃ contact cache, w.cache.freshPop = some (contact, cache) ∧ w.peers contact.endpoint = none) ∨
      (w.control = .retrying ∧
        ∃ r rs, w.retryQueue = r :: rs ∧ w.pool.generation r.connection = r.cachedGeneration))

/-- What must be so for a step to make a move alone. -/
def Causes (w : World) (e : Event) : Move → Prop
  | .discover _ immediate | .retry _ immediate =>
      w.statistics.inboundInflight < 35 ∧
        w.Connects e (if immediate then .connected else .inprogress)
  | .setEndpoint => e = .setEndpoint
  | .accept _ => w.Accepts e
  | .dispatch _ => w.statistics.hasMetConnectionQuota = false
  | .disconnect i => w.DrainsDisconnect e i
  | .replace _ => False
  | _ => True

/-- The moves of a step. -/
inductive Moves (infoHash : Vector Byte 20) (w : World) (e : Event) (v' : Ledger) : Prop
  | one (m : Move) : w.Causes e m → Step infoHash w.ledger m v' → Moves infoHash w e v'
  | replacing (i x : ConnectionSlot) (v : Ledger) : w.Replaces e i →
      Step infoHash w.ledger (.replace i) v → Step infoHash v (.accept x) v' → Moves infoHash w e v'

/-! ### The ledger of each operation -/

@[simp] theorem peer_setPeer (w : World) (i : ConnectionSlot) (p : PeerConnection) :
    (w.setPeer i p).peer i = p := Function.update_self _ _ _

@[simp] theorem peer_modifyPeer (w : World) (i : ConnectionSlot) (f : PeerConnection → PeerConnection) :
    (w.modifyPeer i f).peer i = f (w.peer i) := Function.update_self _ _ _

theorem ledger_sendNotification (w : World) : w.sendNotification.ledger = w.ledger := rfl

/-- The assertions that the ledger counts are left out here. -/
theorem ledger_check (w : World) {a : Assertion} (ha : a ∉ [.teardownSocket, .acquisitionSuccessful])
    (holds : Bool) : (w.check a holds).ledger = w.ledger := by
  have hteardown : teardownFailures (if holds then w.failedAssertions else a :: w.failedAssertions) =
      teardownFailures w.failedAssertions := by
    split
    · rfl
    · rw [teardownFailures, teardownFailures, List.count_cons_of_ne]
      rintro rfl
      exact ha List.mem_cons_self
  have hacquisition : acquisitionFailures
      (if holds then w.failedAssertions else a :: w.failedAssertions) =
        acquisitionFailures w.failedAssertions := by
    split
    · rfl
    · rw [acquisitionFailures, acquisitionFailures, List.count_cons_of_ne]
      rintro rfl
      exact ha (List.mem_cons_of_mem _ List.mem_cons_self)
  simp only [check, ledger, hteardown, hacquisition]

theorem singleResolved_without_cache (s : ConnectionStatistics) (source : Psource) :
    { s.singleResolved source with ipv4AddrInCache := 0 } =
      ConnectionStatistics.singleResolved { s with ipv4AddrInCache := 0 } source := by
  unfold ConnectionStatistics.singleResolved
  split <;> rfl

theorem ledger_singleResolved (w : World) (source : Psource) :
    (w.singleResolved source).ledger =
      { w.ledger with statistics := w.ledger.statistics.singleResolved source } := by
  have hledger : (w.singleResolved source).ledger =
      ledger { w with statistics := w.statistics.singleResolved source } := by
    unfold singleResolved
    split <;> rfl
  rw [hledger]
  simp only [ledger, singleResolved_without_cache]

@[simp] theorem pool_singleResolved (w : World) (source : Psource) :
    (w.singleResolved source).pool = w.pool := by
  unfold singleResolved
  split <;> rfl

theorem ledger_deletePeerConnection (w : World) (i : ConnectionSlot) :
    (w.deletePeerConnection i).ledger =
      { w.ledger.vacate i (w.peer i).teardownConnection with
        poisoned := w.ledger.poisoned + if (w.peer i).tcp.socket = none then 0 else 1 } := by
  have hcount : teardownFailures (if (w.peer i).tcp.socket == none then w.failedAssertions
      else .teardownSocket :: w.failedAssertions) =
        teardownFailures w.failedAssertions + if (w.peer i).tcp.socket = none then 0 else 1 := by
    rw [teardownFailures, teardownFailures]
    by_cases hsocket : (w.peer i).tcp.socket = none
    · simp [hsocket]
    · simp [hsocket]
  have hacquisition : acquisitionFailures (if (w.peer i).tcp.socket == none then w.failedAssertions
      else .teardownSocket :: w.failedAssertions) = acquisitionFailures w.failedAssertions := by
    split
    · rfl
    · rw [acquisitionFailures, acquisitionFailures, List.count_cons_of_ne (by decide)]
  exact Ledger.ext rfl rfl rfl rfl rfl rfl rfl rfl rfl rfl hcount hacquisition rfl

theorem deletePeerConnection_wellFormed (hpool : w.pool.WellFormed)
    (hi : w.pool.occupied i = true) : (w.deletePeerConnection i).pool.WellFormed := by
  have hset : (w.pool.setObject i (w.peer i).teardownConnection).WellFormed := hpool.congr rfl rfl
  exact hset.release hi

/-! ### A callback at work on its peer -/

/-- The state `w₁` is `w` after a callback has worked on the peer of slot `i`, which is in the same
attempt. -/
structure Working (w : World) (i : ConnectionSlot) (w₁ : World) : Prop where
  ledger : w₁.ledger = { w.ledger.set i (w₁.peer i) with kernel := w₁.kernel }
  available : w₁.pool.availableSlots = w.pool.availableSlots
  same : SameAttempt (w.peer i) (w₁.peer i)
  kernel : OnlyAt (w.peer i).tcp.socket w.kernel w₁.kernel

namespace Working

theorem of_ledger_eq (h : w₁.ledger = w.ledger) (havailable : w₁.pool.availableSlots = w.pool.availableSlots) :
    Working w i w₁ := by
  have hobject : w₁.peer i = w.peer i := congrFun (congrArg Ledger.object h) i
  have hkernel : w₁.kernel = w.kernel := congrArg Ledger.kernel h
  refine ⟨?_, havailable, ?_, ?_⟩
  · rw [h, hobject, hkernel]
    exact Ledger.ext (Function.update_eq_self i _).symm rfl rfl rfl rfl rfl rfl rfl rfl rfl rfl rfl rfl
  · rw [hobject]
    exact SameAttempt.refl _
  · rw [hkernel]
    exact OnlyAt.refl _ _

theorem refl (w : World) (i : ConnectionSlot) : Working w i w := of_ledger_eq rfl rfl

theorem trans (h : Working w i w₁) (h' : Working w₁ i w₂) : Working w i w₂ := by
  refine ⟨?_, h'.available.trans h.available, h.same.trans h'.same, h.kernel.trans ?_⟩
  · rw [h'.ledger, h.ledger]
    refine Ledger.ext ?_ rfl rfl rfl rfl rfl rfl rfl rfl rfl rfl rfl rfl
    simp only [Ledger.set, Function.update_idem]
  · rw [← h.same.socket]
    exact h'.kernel

theorem check (w : World) (i : ConnectionSlot) {a : Assertion} (ha : a ∉ [.teardownSocket, .acquisitionSuccessful]) (holds : Bool) :
    Working w i (w.check a holds) := of_ledger_eq (ledger_check w ha holds) rfl

theorem setPeer (w : World) {i : ConnectionSlot} {p : PeerConnection} (hsame : SameAttempt (w.peer i) p) :
    Working w i (w.setPeer i p) := by
  refine ⟨?_, rfl, ?_, OnlyAt.refl _ _⟩
  · rw [peer_setPeer]
    rfl
  · rw [peer_setPeer]
    exact hsame

theorem modifyPeer (w : World) {i : ConnectionSlot} {f : PeerConnection → PeerConnection}
    (hsame : SameAttempt (w.peer i) (f (w.peer i))) : Working w i (w.modifyPeer i f) := setPeer w hsame

theorem onlyAt_transferred (kernel : Kernel) (socket : Option Fd) (f : Connection → Connection) :
    OnlyAt socket kernel (kernel.transferred socket f) := by
  cases socket with
  | none => exact OnlyAt.refl _ _
  | some own =>
      refine ⟨fun fd hfd => ?_, fun fd => ?_⟩
      · exact Function.update_of_ne (fun heq => hfd (congrArg some heq.symm)) _ _
      · simp only [Kernel.transferred, Function.update_apply]
        split
        · rename_i heq
          rw [Option.isSome_map, heq]
        · rfl

theorem transfer (w : World) {i : ConnectionSlot} {p : PeerConnection}
    (f : Connection → Connection) (hsame : SameAttempt (w.peer i) p) :
    Working w i ((w.transfer (w.peer i).tcp.socket f).setPeer i p) := by
  refine ⟨?_, rfl, ?_, onlyAt_transferred _ _ _⟩
  · rw [peer_setPeer]
    rfl
  · rw [peer_setPeer]
    exact hsame

theorem occupied (h : Working w i w₁) : w₁.pool.occupied = w.pool.occupied :=
  congrArg Ledger.occupied h.ledger

theorem generation (h : Working w i w₁) : w₁.pool.generation = w.pool.generation :=
  congrArg Ledger.generation h.ledger

theorem hasMetConnectionQuota (h : Working w i w₁) :
    w₁.statistics.hasMetConnectionQuota = w.statistics.hasMetConnectionQuota := by
  have hstatistics : w₁.ledger.statistics = w.ledger.statistics := by
    rw [h.ledger]
    rfl
  have hconnected := congrArg ConnectionStatistics.connectedBittorrentPeers hstatistics
  rw [ConnectionStatistics.hasMetConnectionQuota, ConnectionStatistics.hasMetConnectionQuota]
  exact congrArg (fun n => !decide (n < 50)) hconnected

theorem wellFormed (h : Working w i w₁) (hpool : w.pool.WellFormed) : w₁.pool.WellFormed :=
  hpool.congr h.available h.occupied

/-- The socket of the peer is closed, whatever its connection has seen. -/
theorem closed_kernel (h : Working w i w₁) :
    w₁.kernel.closed (w₁.peer i).tcp.socket = w.kernel.closed (w.peer i).tcp.socket := by
  rw [h.same.socket]
  cases hsocket : (w.peer i).tcp.socket with
  | none =>
      have hkernel := h.kernel
      rw [hsocket] at hkernel
      exact funext fun fd => hkernel.off fd (Option.some_ne_none fd).symm
  | some own =>
      funext fd
      simp only [Kernel.closed, Function.update_apply]
      split
      · rfl
      · rename_i hne
        refine h.kernel.off fd fun heq => hne ?_
        rw [hsocket] at heq
        exact (Option.some.inj heq).symm

end Working

/-! ### The four ends of a callback -/

/-- A peer whose socket has been closed and whose attempt is counted as ended. -/
theorem Working.ledger_resolved (h : Working w i w₁) {a : Assertion} (ha : a ∉ [.teardownSocket, .acquisitionSuccessful])
    (holds : Bool) :
    (((w₁.closeSocket i).check a holds).singleResolved (w.peer i).source).ledger =
      (w.ledger.resolve i).set i { w₁.peer i with tcp := ⟨none, noError⟩ } := by
  have hclose : (w₁.closeSocket i).ledger =
      { w₁.ledger.set i { w₁.peer i with tcp := ⟨none, noError⟩ } with
        kernel := w₁.kernel.closed (w₁.peer i).tcp.socket } := rfl
  rw [ledger_singleResolved, ledger_check _ ha, hclose, h.ledger, h.closed_kernel]
  refine Ledger.ext ?_ rfl rfl rfl rfl rfl rfl rfl rfl rfl rfl rfl rfl
  simp only [Ledger.set, Ledger.resolve, Function.update_idem]

/-- Such a peer is deleted. -/
theorem ledger_delete_resolved {p : PeerConnection}
    (hledger : w₂.ledger = (w.ledger.resolve i).set i p) (hsocket : p.tcp.socket = none)
    (hend : p.contact.endpoint = (w.peer i).contact.endpoint) :
    (w₂.deletePeerConnection i).ledger = (w.ledger.resolve i).vacate i p.teardownConnection := by
  have hpeer : w₂.peer i = p := by
    have hobject := congrFun (congrArg Ledger.object hledger) i
    rw [Ledger.set] at hobject
    exact hobject.trans (Function.update_self _ _ _)
  rw [ledger_deletePeerConnection, hpeer, hledger, if_pos hsocket]
  refine Ledger.ext ?_ rfl rfl ?_ rfl rfl rfl rfl rfl rfl rfl rfl rfl
  · simp only [Ledger.vacate, Ledger.set, Function.update_idem]
  · simp only [Ledger.vacate, Ledger.set, Function.update_self]
    rw [hend]
    rfl

theorem Working.ledger_hardDeletePeerConnection (h : Working w i w₁) :
    (w₁.hardDeletePeerConnection i).ledger = (w.ledger.resolve i).vacate i
      { w₁.peer i with tcp := ⟨none, noError⟩ }.teardownConnection := by
  have hresolved : ((w₁.closeSocket i).singleResolved (w₁.peer i).source).ledger =
      (w.ledger.resolve i).set i { w₁.peer i with tcp := ⟨none, noError⟩ } := by
    rw [h.same.source]
    exact @Working.ledger_resolved w w₁ i h .failureSource (by decide) true
  exact ledger_delete_resolved hresolved rfl h.same.endpoint

theorem hardDeletePeerConnection_wellFormed (hpool : w.pool.WellFormed)
    (hi : w.pool.occupied i = true) : (w.hardDeletePeerConnection i).pool.WellFormed := by
  refine deletePeerConnection_wellFormed ?_ ?_
  · rw [pool_singleResolved]
    exact hpool.congr rfl rfl
  · rw [pool_singleResolved]
    exact hi

/-- `hard_delete_peer_connection`. -/
theorem hardDeletePeerConnection_moves (hpool : w.pool.WellFormed) (hi : w.pool.occupied i = true)
    (hflight : (w.peer i).InFlight) (h : Working w i w₁) :
    (w₁.hardDeletePeerConnection i).pool.WellFormed ∧
      Moves infoHash w e (w₁.hardDeletePeerConnection i).ledger :=
  ⟨hardDeletePeerConnection_wellFormed (h.wellFormed hpool) ((congrFun h.occupied i).trans hi),
    .one (.discard i) trivial ⟨hi, hflight, _, teardownConnection_vacant _, rfl,
      h.ledger_hardDeletePeerConnection⟩⟩

/-- `handle_peer_failure`. -/
theorem handlePeerFailure_moves (hpool : w.pool.WellFormed) (hi : w.pool.occupied i = true)
    (hflight : (w.peer i).InFlight) (h : Working w i w₁) :
    (w₁.handlePeerFailure i).pool.WellFormed ∧
      Moves infoHash w e (w₁.handlePeerFailure i).ledger := by
  let w₂ := w₁.modifyPeer i fun peer => { peer with state := .failed, failures := peer.failures + 1 }
  let p : PeerConnection := { w₂.peer i with tcp := ⟨none, noError⟩ }
  let w₃ := ((w₂.closeSocket i).check .failureSource (p.source != .null)).singleResolved p.source
  have h₂ : Working w i w₂ := h.trans (Working.modifyPeer w₁ ⟨rfl, rfl, rfl⟩)
  have hpeer₂ : w₂.peer i =
      { w₁.peer i with state := .failed, failures := (w₁.peer i).failures + 1 } :=
    peer_modifyPeer w₁ i _
  have hpeer : (w₂.closeSocket i).peer i = p := peer_modifyPeer _ _ _
  have hsource : p.source = (w.peer i).source := h₂.same.source
  have hresolved : w₃.ledger = (w.ledger.resolve i).set i p := by
    rw [← @Working.ledger_resolved w w₂ i h₂ .failureSource (by decide) (p.source != .null), ← hsource]
  have hpool₃ : w₃.pool.WellFormed := by
    rw [pool_singleResolved]
    exact hpool.congr h₂.available h₂.occupied
  have hocc₃ : w₃.pool.occupied i = true := by
    rw [pool_singleResolved]
    exact (congrFun h₂.occupied i).trans hi
  have hfailure : w₁.handlePeerFailure i =
      if 3 ≤ p.failures ∨ p.source = .tcpServer then w₃.deletePeerConnection i
      else { w₃.setPeer i p.awaitRetry with statistics := w₃.statistics.incrementFailed } := by
    rw [handlePeerFailure]
    simp only
    rw [hpeer]
  rw [hfailure]
  split
  · exact ⟨deletePeerConnection_wellFormed hpool₃ hocc₃, .one (.discard i) trivial
      ⟨hi, hflight, _, teardownConnection_vacant _, rfl,
        ledger_delete_resolved hresolved rfl h₂.same.endpoint⟩⟩
  · rename_i hretry
    have htracker : (w.peer i).source = .tracker := by
      cases hs : (w.peer i).source with
      | null => exact absurd hs hflight.source
      | tracker => rfl
      | tcpServer => exact absurd (Or.inr (hsource.trans hs)) hretry
    have hledger : World.ledger { w₃.setPeer i p.awaitRetry with
        statistics := w₃.statistics.incrementFailed } =
        { w₃.ledger.set i p.awaitRetry with
          statistics := w₃.ledger.statistics.incrementFailed } := rfl
    refine ⟨hpool₃.congr rfl rfl, .one (.fail i) trivial
      ⟨hi, hflight, htracker, p.awaitRetry, ?_, h₂.same.endpoint, ?_⟩⟩
    · refine ⟨hsource.trans htracker, ?_, rfl, ⟨rfl, rfl⟩, rfl, ⟨rfl, rfl, rfl, rfl, rfl, rfl⟩⟩
      exact congrArg PeerConnection.state hpeer₂
    · rw [hledger, hresolved]
      refine Ledger.ext ?_ rfl rfl rfl rfl rfl rfl rfl rfl ?_ rfl rfl rfl
      · simp only [Ledger.set, Function.update_idem]
      · simp only [Ledger.set, Ledger.resolve]
        rw [ConnectionStatistics.singleResolved, if_neg]
        exact fun hserver => Psource.noConfusion (htracker.symm.trans hserver)

/-- `handle_peer_connection_and_dispatch`. -/
theorem handlePeerConnectionAndDispatch_moves (hpool : w.pool.WellFormed)
    (hquota : w.statistics.hasMetConnectionQuota = false) (hi : w.pool.occupied i = true) (hflight : (w.peer i).InFlight) (h : Working w i w₁)
    (hcomplete : ∀ c, (w.peer i).forSock.fed = false →
      connection w.kernel (w.peer i) = some c → Progress infoHash (w.peer i) c →
        ∃ c', connection w₁.kernel (w₁.peer i) = some c' ∧ Complete infoHash c') :
    (w₁.handlePeerConnectionAndDispatch i).pool.WellFormed ∧
      Moves infoHash w e (w₁.handlePeerConnectionAndDispatch i).ledger := by
  let p := { w₁.peer i with state := .connected }.stopConnectionWatchers
  let update : ConnectUpdate := ⟨i, p.tcp.socket, w₁.pool.generation i⟩
  let cs := if w₁.connects.length < 50 then w₁.connects ++ [update] else w₁.connects
  let w₂ := { w₁.setPeer i p with
    connects := cs
    statistics := w₁.statistics.incrementConnectedBittorrentPeers
    dispatched := connection w₁.kernel p :: w₁.dispatched }
  have hdispatch : w₁.handlePeerConnectionAndDispatch i = w₂.singleResolved p.source := by
    rw [handlePeerConnectionAndDispatch]
    simp only [peer_modifyPeer]
    rfl
  have hsource : p.source = (w.peer i).source := h.same.source
  have hledger₂ : w₂.ledger = { w₁.ledger.set i p with
      connects := cs
      statistics := w₁.ledger.statistics.incrementConnectedBittorrentPeers
      dispatched := connection w₁.kernel p :: w₁.dispatched } := rfl
  have hconnects : w₁.connects = w.connects := congrArg Ledger.connects h.ledger
  have hdispatched : w₁.dispatched = w.dispatched := congrArg Ledger.dispatched h.ledger
  rw [hdispatch]
  refine ⟨?_, .one (.dispatch i) hquota ⟨hi, hflight, p, w₁.kernel, cs,
    ⟨?_, rfl, ?_, ⟨rfl, rfl⟩, rfl⟩, ⟨hsource, h.same.endpoint, h.same.socket⟩, h.kernel, ?_, hcomplete,
    ?_⟩⟩
  · rw [pool_singleResolved]
    exact hpool.congr h.available h.occupied
  · exact fun hnull => hflight.source (hsource.symm.trans hnull)
  · exact fun hnone => hflight.socket (h.same.socket.symm.trans hnone)
  · simp only [cs, update]
    rw [h.generation, hconnects]
    split
    · exact Or.inr rfl
    · rename_i hfull
      exact Or.inl ⟨Nat.le_of_not_lt hfull, rfl⟩
  · rw [ledger_singleResolved, hledger₂, h.ledger, hdispatched, hsource]
    refine Ledger.ext ?_ rfl rfl rfl rfl rfl rfl rfl rfl rfl rfl rfl rfl
    simp only [Ledger.set, Function.update_idem]

/-- A callback that leaves the peer in flight. -/
theorem Working.moves (hpool : w.pool.WellFormed) (hi : w.pool.occupied i = true)
    (hflight : (w.peer i).InFlight) (h : Working w i w₁) (hflight₁ : (w₁.peer i).InFlight)
    (hfed : (w.peer i).forSock.fed = false → (w₁.peer i).forSock.fed = false)
    (hprogress : ∀ c, (w.peer i).forSock.fed = false →
      connection w.kernel (w.peer i) = some c → Progress infoHash (w.peer i) c →
        ∃ c', connection w₁.kernel (w₁.peer i) = some c' ∧ Progress infoHash (w₁.peer i) c') :
    w₁.pool.WellFormed ∧ Moves infoHash w e w₁.ledger :=
  ⟨h.wellFormed hpool, .one (.progress i) trivial
    ⟨hi, hflight, w₁.peer i, w₁.kernel, hflight₁, h.same, h.kernel, h.ledger, hfed, hprogress⟩⟩

end World

end TorrentEngine
