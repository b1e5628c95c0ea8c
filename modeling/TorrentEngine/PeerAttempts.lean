import TorrentEngine.PeerStages

/-! The attempts of the peers in flight: when a peer that is marked connected has exchanged both
handshakes on its connection, and when the quota keeps new connections from being started. -/

open Transition

namespace TorrentEngine

open PeerConnection

namespace Ledger

variable {v v' : Ledger} {i x : ConnectionSlot} {m : Move} {infoHash : Vector Byte 20}

/-! ### Handshakes -/

/-- The handshakes of a peer in flight are under way, and its watcher was not fed. -/
def Handshakes (infoHash : Vector Byte 20) (kernel : Kernel) (p : PeerConnection) : Prop :=
  p.InFlight → p.forSock.fed = false ∧ ∃ c, connection kernel p = some c ∧ Progress infoHash p c

/-- The handshakes are under way in every slot, and were complete wherever a peer was connected. -/
structure Handshaking (infoHash : Vector Byte 20) (v : Ledger) : Prop where
  progress : ∀ i, Handshakes infoHash v.kernel (v.object i)
  complete : ∀ o ∈ v.dispatched, ∃ c, o = some c ∧ Complete infoHash c

/-- The sockets of the peers in flight in the other slots are as they were. -/
def Spares (v : Ledger) (i : ConnectionSlot) (kernel : Kernel) : Prop :=
  ∀ j fd, j ≠ i → (v.object j).InFlight → (v.object j).tcp.socket = some fd → kernel fd = v.kernel fd

theorem Spares.refl (v : Ledger) (i : ConnectionSlot) : Spares v i v.kernel := fun _ _ _ _ _ => rfl

/-- The new descriptor is none of theirs. -/
theorem Spares.opened (h : Descriptors v) {fd : Fd} (hfd : v.kernel fd = none) :
    Spares v i (v.kernel.opened fd) := by
  intro j other _ hflight hsocket
  refine Function.update_of_ne ?_ _ _
  rintro rfl
  have hopen := h.flight_open j other hflight hsocket
  rw [hfd] at hopen
  cases hopen

theorem Spares.onlyAt (h : Descriptors v) {kernel : Kernel} (hi : (v.object i).InFlight)
    (hkernel : OnlyAt (v.object i).tcp.socket v.kernel kernel) : Spares v i kernel := by
  intro j fd hji hflight hsocket
  exact hkernel.off fd fun hi' => hji (h.flight_unique j i fd hflight hi hsocket hi')

theorem closed_of_ne {kernel : Kernel} {socket : Option Fd} {fd : Fd} (h : socket ≠ some fd) :
    kernel.closed socket fd = kernel fd := by
  cases socket with
  | none => rfl
  | some own => exact Function.update_of_ne (fun heq => h (congrArg some heq.symm)) _ _

theorem Spares.closed (h : Registry v) (hi : v.occupied i = true) (hstate : (v.object i).state ≠ .connected) :
    Spares v i (v.kernel.closed (v.object i).tcp.socket) := by
  intro j fd hji hflight hsocket
  refine closed_of_ne fun hown => ?_
  cases h.registered.staged i hi with
  | inFlight hp => exact hji (h.descriptors.flight_unique j i fd hflight hp hsocket hown)
  | failed hp => exact Option.some_ne_none fd (hown.symm.trans hp.socket)
  | waiting hp => exact Option.some_ne_none fd (hown.symm.trans hp.socket)
  | connected hp => exact hstate hp.state

theorem connection_congr {kernel kernel' : Kernel} {p : PeerConnection}
    (h : ∀ fd, p.tcp.socket = some fd → kernel' fd = kernel fd) :
    connection kernel' p = connection kernel p := by
  rw [connection, connection]
  cases hsocket : p.tcp.socket with
  | none => rfl
  | some fd => exact h fd hsocket

/-- A move that leaves the handshakes of its own slot in order. -/
theorem Handshaking.slot (h : Handshaking infoHash v) (hstep : Step infoHash v m v') (hslot : m.slot = some i)
    {p : PeerConnection} (hobject : v'.object i = p) (hkernel : Spares v i v'.kernel)
    (hdispatched : ∀ o ∈ v'.dispatched, o ∈ v.dispatched ∨ ∃ c, o = some c ∧ Complete infoHash c)
    (hi : Handshakes infoHash v'.kernel p) : Handshaking infoHash v' := by
  subst hobject
  refine ⟨fun j => ?_, fun o ho => (hdispatched o ho).elim (h.complete o) id⟩
  by_cases hji : j = i
  · subst hji
    exact hi
  · have hsame : SameSlot v v' j := hstep.sameSlot_of_ne hslot hji
    intro hflight
    rw [hsame.object] at hflight ⊢
    rw [connection_congr fun fd => hkernel j fd hji hflight]
    exact h.progress j hflight

/-- A move about no slot. -/
theorem Handshaking.same (h : Handshaking infoHash v) (hobject : v'.object = v.object)
    (hkernel : ∀ i fd, (v.object i).InFlight → (v.object i).tcp.socket = some fd → v'.kernel fd = v.kernel fd)
    (hdispatched : v'.dispatched = v.dispatched) : Handshaking infoHash v' := by
  refine ⟨fun i hflight => ?_, fun o ho => h.complete o (hdispatched ▸ ho)⟩
  rw [hobject] at hflight ⊢
  rw [connection_congr fun fd => hkernel i fd hflight]
  exact h.progress i hflight

theorem Handshakes.of_not {kernel : Kernel} {p : PeerConnection} (h : ¬ p.InFlight) :
    Handshakes infoHash kernel p := fun hflight => absurd hflight h

theorem connection_opened {kernel : Kernel} {p : PeerConnection} {fd : Fd} (h : p.tcp.socket = some fd) :
    connection (kernel.opened fd) p = some .fresh := by
  rw [connection, h]
  exact Function.update_self _ _ _

/-- An attempt whose `connect` goes on has exchanged nothing yet. -/
theorem Outgoing.handshakes {p : PeerConnection} {fd : Fd} (h : Outgoing p fd false) (kernel : Kernel) :
    Handshakes infoHash (kernel.opened fd) p := by
  obtain ⟨hstate, hevent, hfed⟩ := h.transport rfl
  exact fun _ => ⟨hfed, .fresh, connection_opened h.socket,
    .connecting h.source hstate hevent h.buffers rfl⟩

theorem Incoming.handshakes {p : PeerConnection} {fd : Fd} (h : Incoming p fd) (kernel : Kernel) :
    Handshakes infoHash (kernel.opened fd) p :=
  fun _ => ⟨h.fed, .fresh, connection_opened h.socket,
    .receiving h.source (h.inFlight.server h.source) h.event h.buffers.send_write
      h.buffers.send_readable h.buffers.send_read rfl (World.receiving_of_reset h.buffers rfl)⟩

/-- **Every move keeps the handshakes in order**, but for an outgoing attempt that is connected at once. -/
theorem Step.handshaking (hregistry : Registry v) (hstep : Step infoHash v m v')
    (hlater : ∀ i, m ≠ .discover i true ∧ m ≠ .retry i true) (h : Handshaking infoHash v) :
    Handshaking infoHash v' := by
  have hcopy := hstep
  have hvacant : ∀ {kernel : Kernel} {p : PeerConnection}, p.Vacant → Handshakes infoHash kernel p :=
    fun hp => .of_not (Registry.not_inFlight_of_vacant hp)
  cases m with
  | quiet =>
      cases hstep
      exact h
  | setEndpoint =>
      obtain ⟨u, us, -, rfl⟩ := hstep
      exact h.same rfl (fun _ _ _ _ => rfl) rfl
  | endSession =>
      obtain ⟨k, s, ds, hs, -, rfl⟩ := hstep
      refine h.same rfl (fun i fd hflight hsocket => closed_of_ne fun hheld => ?_) rfl
      refine hregistry.descriptors.flight_held i fd hflight hsocket (List.mem_append_right _ ?_)
      exact List.mem_filterMap.mpr ⟨s, List.mem_of_getElem? hs, hheld⟩
  | dropDisconnect =>
      obtain ⟨d, ds, -, -, rfl⟩ := hstep
      exact h.same rfl (fun _ _ _ _ => rfl) rfl
  | dropRetry =>
      obtain ⟨r, rs, -, -, rfl⟩ := hstep
      exact h.same rfl (fun _ _ _ _ => rfl) rfl
  | recycle i =>
      obtain ⟨-, p, n, hp, -, -, rfl⟩ := hstep
      exact h.slot hcopy rfl (Function.update_self _ _ _) (Spares.refl v i) (fun _ => Or.inl) (hvacant hp)
  | discover i immediate =>
      obtain ⟨-, -, p, fd, hp, hfd, -, rfl⟩ := hstep
      cases immediate with
      | true => exact absurd rfl (hlater i).1
      | false =>
          exact h.slot hcopy rfl (Function.update_self _ _ _) (Spares.opened hregistry.descriptors hfd) (fun _ => Or.inl)
            (hp.handshakes v.kernel)
  | retry i immediate =>
      obtain ⟨-, -, p, fd, rs, hp, hfd, -, -, rfl⟩ := hstep
      cases immediate with
      | true => exact absurd rfl (hlater i).2
      | false =>
          exact h.slot hcopy rfl (Function.update_self _ _ _) (Spares.opened hregistry.descriptors hfd) (fun _ => Or.inl)
            (hp.handshakes v.kernel)
  | abandon i =>
      obtain ⟨-, -, p, rs, hp, -, -, rfl⟩ := hstep
      exact h.slot hcopy rfl (Function.update_self _ _ _) (Spares.refl v i) (fun _ => Or.inl) (hvacant hp)
  | accept i =>
      obtain ⟨-, p, fd, hp, hfd, -, rfl⟩ := hstep
      exact h.slot hcopy rfl (Function.update_self _ _ _) (Spares.opened hregistry.descriptors hfd) (fun _ => Or.inl)
        (hp.handshakes v.kernel)
  | replace i =>
      obtain ⟨hi, p, hp, ⟨hstate, -, rfl⟩ | ⟨-, -, rfl⟩⟩ := hstep
      · exact h.slot hcopy rfl (Function.update_self _ _ _) (Spares.closed hregistry hi hstate) (fun _ => Or.inl)
          (hvacant hp)
      · exact h.slot hcopy rfl (Function.update_self _ _ _) (Spares.refl v i) (fun _ => Or.inl) (hvacant hp)
  | disconnect i =>
      obtain ⟨-, -, p, d, ds, hp, -, -, -, -, rfl⟩ := hstep
      exact h.slot hcopy rfl (Function.update_self _ _ _) (Spares.refl v i) (fun _ => Or.inl) (hvacant hp)
  | progress i =>
      obtain ⟨-, hflight, p, kernel, -, -, hkernel, rfl, hfed, hprogress⟩ := hstep
      refine h.slot hcopy rfl (Function.update_self _ _ _) (Spares.onlyAt hregistry.descriptors hflight hkernel)
        (fun _ => Or.inl) fun _ => ?_
      obtain ⟨hfed', c, hc, hp⟩ := h.progress i hflight
      exact ⟨hfed hfed', hprogress c hfed' hc hp⟩
  | fail i =>
      obtain ⟨hi, hflight, -, p, hp, -, rfl⟩ := hstep
      exact h.slot hcopy rfl (Function.update_self _ _ _) (Spares.closed hregistry hi hflight.state_ne)
        (fun _ => Or.inl) (.of_not hp.not_inFlight)
  | discard i =>
      obtain ⟨hi, hflight, p, hp, -, rfl⟩ := hstep
      exact h.slot hcopy rfl (Function.update_self _ _ _) (Spares.closed hregistry hi hflight.state_ne)
        (fun _ => Or.inl) (hvacant hp)
  | dispatch i =>
      obtain ⟨-, hflight, p, kernel, cs, hp, -, hkernel, -, hcomplete, rfl⟩ := hstep
      obtain ⟨hfed, c, hc, hprogress⟩ := h.progress i hflight
      refine h.slot hcopy rfl (Function.update_self _ _ _) (Spares.onlyAt hregistry.descriptors hflight hkernel)
        (fun o ho => ?_) (.of_not fun hflight => hflight.not_connected hp)
      rcases List.mem_cons.mp ho with rfl | ho
      · exact Or.inr (hcomplete c hfed hc hprogress)
      · exact Or.inl ho
  | requeue i =>
      obtain ⟨-, -, p, hp, -, rfl⟩ := hstep
      exact h.slot hcopy rfl (Function.update_self _ _ _) (Spares.refl v i) (fun _ => Or.inl)
        (.of_not fun hflight => hflight.not_waiting hp)

/-! ### Descriptors opened -/

/-- Only the start of a connection opens a descriptor. -/
theorem Step.opens_nothing (hstep : Step infoHash v m v') {fd : Fd} (hfd : v.kernel fd = none)
    (hconnect : ∀ i immediate, m ≠ .discover i immediate ∧ m ≠ .retry i immediate)
    (haccept : ∀ i, m ≠ .accept i) : v'.kernel fd = none := by
  have honly : ∀ {socket kernel}, OnlyAt socket v.kernel kernel → kernel fd = none := by
    intro socket kernel hkernel
    have hisSome := hkernel.isSome fd
    rw [hfd] at hisSome
    exact Option.isSome_eq_false_iff.mp hisSome |> Option.isNone_iff_eq_none.mp
  cases m with
  | quiet =>
      cases hstep
      exact hfd
  | setEndpoint =>
      obtain ⟨u, us, -, rfl⟩ := hstep
      exact hfd
  | endSession =>
      obtain ⟨k, s, ds, -, -, rfl⟩ := hstep
      exact World.closed_of_none s.socket hfd
  | dropDisconnect =>
      obtain ⟨d, ds, -, -, rfl⟩ := hstep
      exact hfd
  | dropRetry =>
      obtain ⟨r, rs, -, -, rfl⟩ := hstep
      exact hfd
  | recycle i =>
      obtain ⟨-, p, n, -, -, -, rfl⟩ := hstep
      exact hfd
  | discover i immediate => exact absurd rfl (hconnect i immediate).1
  | retry i immediate => exact absurd rfl (hconnect i immediate).2
  | abandon i =>
      obtain ⟨-, -, p, rs, -, -, -, rfl⟩ := hstep
      exact hfd
  | accept i => exact absurd rfl (haccept i)
  | replace i =>
      obtain ⟨-, p, -, ⟨-, -, rfl⟩ | ⟨-, -, rfl⟩⟩ := hstep
      · exact World.closed_of_none (v.object i).tcp.socket hfd
      · exact hfd
  | disconnect i =>
      obtain ⟨-, -, p, d, ds, -, -, -, -, -, rfl⟩ := hstep
      exact hfd
  | progress i =>
      obtain ⟨-, -, p, kernel, -, -, hkernel, rfl, -⟩ := hstep
      exact honly hkernel
  | fail i =>
      obtain ⟨-, -, -, p, -, -, rfl⟩ := hstep
      exact World.closed_of_none (v.object i).tcp.socket hfd
  | discard i =>
      obtain ⟨-, -, p, -, -, rfl⟩ := hstep
      exact World.closed_of_none (v.object i).tcp.socket hfd
  | dispatch i =>
      obtain ⟨-, -, p, kernel, cs, -, -, hkernel, -, -, rfl⟩ := hstep
      exact honly hkernel
  | requeue i =>
      obtain ⟨-, -, p, -, -, rfl⟩ := hstep
      exact hfd

end Ledger

namespace World

open Ledger

variable {w w' : World} {e : Event} {infoHash : Vector Byte 20}

/-! ### Connected peers -/

/-- No `connect` of a scheduler is done at once. -/
def CompletesLater (w : World) (e : Event) : Prop := ¬ w.Connects e .connected

theorem handshaking (h : (managerMachine infoHash).ReachableBy CompletesLater w) :
    w.ledger.Handshaking infoHash := by
  refine ledger_invariant (Handshaking infoHash) ?_ ?_ ?_ h
  · exact ⟨fun i hflight => absurd fresh_vacant hflight.not_vacant, fun o ho => absurd ho List.not_mem_nil⟩
  · intro w e m v' hreachable hI hgood hcauses hm
    refine hm.handshaking (reachable_inOrder hreachable).registry (fun i => ⟨?_, ?_⟩) hI
    · rintro rfl
      exact hgood hcauses.2
    · rintro rfl
      exact hgood hcauses.2
  · intro w e i x v v' hreachable hI _ _ hreplace hregistry haccept
    have hv := hreplace.handshaking (reachable_inOrder hreachable).registry
      (fun _ => ⟨Move.noConfusion, Move.noConfusion⟩) hI
    exact haccept.handshaking hregistry (fun _ => ⟨Move.noConfusion, Move.noConfusion⟩) hv

/-- **Both handshakes are complete wherever a peer was marked connected**, in the runs in which no `connect`
is done at once: on its connection the manager's handshake was accepted as a whole, and one handshake was
received, with the same info hash. -/
theorem dispatched_complete (h : (managerMachine infoHash).ReachableBy CompletesLater w) :
    ∀ o ∈ w.dispatched, ∃ c, o = some c ∧ c.sent = Handshake.computeHandshake infoHash ∧
      c.received.length = 68 ∧ Handshake.infoHashField c.received = infoHash.toList := by
  intro o ho
  obtain ⟨c, rfl, hc⟩ := (handshaking h).complete o ho
  exact ⟨c, rfl, hc.sent, hc.received, hc.infoHash_eq⟩

theorem dispatched_complete_sample : ∃ c, sampleWorld.dispatched = [some c] ∧
    c.sent = Handshake.computeHandshake sampleInfoHash ∧ c.received.length = 68 ∧
      Handshake.infoHashField c.received = sampleInfoHash.toList := by
  have hdispatched : sampleWorld.dispatched = [some ⟨sampleHandshake, sampleHandshake⟩] := by decide +kernel
  obtain ⟨c, hc, hcomplete⟩ := dispatched_complete (sampleWorld_reachableBy.mono fun _ _ => plain_not_connects)
    (some ⟨sampleHandshake, sampleHandshake⟩) (hdispatched ▸ List.mem_singleton_self _)
  exact ⟨c, hdispatched.trans (congrArg (fun o => [o]) hc), hcomplete⟩

/-- The `connect` is done at once, and then the other side sends its handshake. -/
def atOnceRun : List Event :=
  connectRun 80 5 .connected ++
    [.socketReady firstSlot (.io .write) ⟨.error 0, .failed eagain, .accepts 68⟩,
      .socketReady firstSlot (.io .read) ⟨.error 0, .delivers sampleHandshake, .accepts 68⟩]

/-- The peer is marked connected without a byte of the manager's handshake. -/
theorem dispatched_unsent : (managerMachine sampleInfoHash).Reachable (afterRun atOnceRun) ∧
    (afterRun atOnceRun).dispatched = [some ⟨[], sampleHandshake⟩] :=
  ⟨afterRun_reachable _, by decide +kernel⟩

/-! ### The quota -/

/-- A scheduler is at a peer to connect to: a discovered contact that is not managed, or a retry as new as
its slot. -/
def FindsPeer (w : World) : Prop :=
  (w.control = .discovering ∧
      ∃ contact cache, w.cache.freshPop = some (contact, cache) ∧ w.peers contact.endpoint = none) ∨
    (w.control = .retrying ∧
      ∃ r rs, w.retryQueue = r :: rs ∧ w.pool.generation r.connection = r.cachedGeneration)

/-- While the quota is met, no scheduler is at a peer to connect to. -/
def Idles (w : World) : Prop := w.statistics.hasMetConnectionQuota → ¬ w.FindsPeer

theorem Connects.findsPeer {result : ConnectReturn} (h : w.Connects e result) : w.FindsPeer := by
  obtain ⟨_, _, _, _, hfinds⟩ := h
  exact hfinds

/-- A step past the quota opens no descriptor. -/
theorem step_opens_nothing (h : (managerMachine infoHash).Reachable w) (hquota : w.statistics.hasMetConnectionQuota)
    (hidles : w.Idles) (hstep : w.step infoHash e = some w') {fd : Fd} (hfd : w.kernel fd = none) :
    w'.kernel fd = none := by
  cases (step_takes (reachable_inOrder h) hstep).moves with
  | one m hcauses hm =>
      refine hm.opens_nothing hfd (fun i immediate => ⟨?_, ?_⟩) fun i => ?_
      · rintro rfl
        exact hidles hquota hcauses.2.findsPeer
      · rintro rfl
        exact hidles hquota hcauses.2.findsPeer
      · rintro rfl
        obtain ⟨_, _, _, hnot, _⟩ := hcauses
        exact Bool.noConfusion (hquota.symm.trans hnot)
  | replacing i x v hreplaces hreplace haccept =>
      obtain ⟨_, _, _, _, _, hnot, _⟩ := hreplaces
      exact Bool.noConfusion (hquota.symm.trans hnot)

/-- **No connection is started while the quota is met**, in any stretch of any run, unless a scheduler is
then at a peer to connect to. -/
theorem quota_kept (h : (managerMachine infoHash).Reachable w)
    (hstretch : ((managerMachine infoHash).startedAt w).ReachableBy
      (fun w _ => w.statistics.hasMetConnectionQuota ∧ w.Idles) w') :
    ∀ fd, w.kernel fd = none → w'.kernel fd = none := by
  intro fd hfd
  refine hstretch.invariant_startedAt (fun w => w.kernel fd = none) h hfd ?_
  intro u e u' hreachable hfd hgood hstep
  exact step_opens_nothing hreachable hgood.1 hgood.2 hstep hfd

/-- A contact is discovered that is managed already, and the schedulers are woken. -/
def wakeRun (port : Byte) : List Event :=
  [.discover (sampleStore port).contact, .drainDiscovered] ++ List.replicate 2 (.turn idleCalls) ++
    .runDaemon :: List.replicate 2 (.turn idleCalls)

/-- The quota is met while an attempt goes on whose contact is in the cache again. The attempt ends, and
its end wakes the schedulers. -/
def quotaRun : List Event :=
  connectRun 80 5 .inprogress ++ wakeRun 80 ++ wakeRun 80 ++
    (List.range 50).flatMap (fun k =>
      acceptRun (.ofNat (81 + k)) (6 + k) ++ handshakeRun ⟨198 - k, by omega⟩) ++
    [.socketReady firstSlot (.io .write) ⟨.error 0, .failed eagain, .failed eagain⟩, .runDaemon,
      .turn idleCalls]

def pastQuota : World := afterRun quotaRun

/-- The scheduler connects to the contact again. -/
def reconnect : Event := .turn { idleCalls with connect := ⟨.opened 99, .inprogress⟩ }

def reconnected : World := pastQuota.after sampleInfoHash (fun _ _ => true) [reconnect]

/-- Whether a scheduler is at a peer to connect to. -/
def findsPeer (w : World) : Bool :=
  match w.control with
  | .discovering => w.cache.freshPop.any fun popped => (w.peers popped.1.endpoint).isNone
  | .retrying => w.retryQueue.head?.any fun r => w.pool.generation r.connection == r.cachedGeneration
  | _ => false

theorem FindsPeer.findsPeer (h : w.FindsPeer) : w.findsPeer = true := by
  rw [World.findsPeer]
  rcases h with ⟨hcontrol, contact, cache, hpop, hnew⟩ | ⟨hcontrol, r, rs, hqueue, hcurrent⟩
  · rw [hcontrol]
    dsimp only
    rw [hpop, Option.any_some, hnew]
    rfl
  · rw [hcontrol]
    dsimp only
    rw [hqueue, List.head?_cons, Option.any_some, beq_iff_eq]
    exact hcurrent

def idlesPastQuota (w : World) (_ : Event) : Bool := w.statistics.hasMetConnectionQuota && !w.findsPeer

/-- The schedulers find nothing more to connect to, and drop the contact that is left. -/
def settled : World := reconnected.after sampleInfoHash idlesPastQuota (List.replicate 7 (.turn idleCalls))

theorem reconnected_values :
    (pastQuota.statistics.hasMetConnectionQuota = true ∧ pastQuota.kernel 99 = none) ∧
      (Machine.replay (fun _ _ => true) (step sampleInfoHash) pastQuota [reconnect]).isSome ∧
        (reconnected.kernel 99).isSome ∧ reconnected.kernel 100 = none ∧
          reconnected.cache.size = 1 ∧ settled.cache.size = 0 ∧ settled.control = .eventLoop := by
  decide +kernel

theorem reconnected_run : (managerMachine sampleInfoHash).Run pastQuota [reconnect] reconnected :=
  after_run reconnected_values.2.1

theorem settled_stretch : ((managerMachine sampleInfoHash).startedAt reconnected).ReachableBy
    (fun w _ => w.statistics.hasMetConnectionQuota ∧ w.Idles) settled := by
  rw [settled, after]
  refine .replay_getD (fun w _ hallowed => ?_) (fun _ _ _ h => h) (.init rfl) _
  rw [idlesPastQuota, Bool.and_eq_true] at hallowed
  refine ⟨hallowed.1, fun _ hfinds => ?_⟩
  rw [hfinds.findsPeer] at hallowed
  exact Bool.noConfusion hallowed.2

theorem quota_kept_settled : reconnected.cache.size = 1 ∧ settled.cache.size = 0 ∧ settled.control = .eventLoop ∧
    settled.kernel 100 = none := by
  obtain ⟨-, -, -, hfd, hleft, hdropped, hreturned⟩ := reconnected_values
  refine ⟨hleft, hdropped, hreturned, ?_⟩
  exact quota_kept (reconnected_run.reachable (afterRun_reachable _)) settled_stretch 100 hfd

/-- The end of an attempt past the quota leads to a new one. -/
theorem quota_broken : (managerMachine sampleInfoHash).Reachable pastQuota ∧
    pastQuota.statistics.hasMetConnectionQuota = true ∧
      (managerMachine sampleInfoHash).Run pastQuota [reconnect] reconnected ∧
        pastQuota.kernel 99 = none ∧ (reconnected.kernel 99).isSome :=
  ⟨afterRun_reachable _, reconnected_values.1.1, reconnected_run, reconnected_values.1.2,
    reconnected_values.2.2.1⟩

end World

end TorrentEngine
