import TorrentEngine.PeerSchedulers

/-! Every step of the manager keeps the pool, the loops and the ledger in order, so they are in order in
every reachable state. -/

open Transition

namespace TorrentEngine

open PeerConnection Ledger

namespace World

variable {w w₁ w' : World} {i : ConnectionSlot} {infoHash : Vector Byte 20} {e : Event}

/-! ### Steps -/

structure InOrder (w : World) : Prop where
  pool : w.pool.WellFormed
  scheduling : w.Scheduling
  registry : Registry w.ledger

/-- A callback, which runs in the event loop. -/
theorem takes_of_callback (hcontrol : w.control = .eventLoop) (hcontrol' : w'.control = w.control)
    (h : w'.pool.WellFormed ∧ Moves infoHash w e w'.ledger) : Takes infoHash w e w' :=
  ⟨h.1, @Scheduling.of_control _ .eventLoop (hcontrol'.trans hcontrol) (by decide), h.2⟩

theorem turn_takes (h : w.InOrder) {calls : TurnCalls} (hconnect : w.fdFree calls.connect.socket.fd?)
    (haccept : w.fdFree calls.accept.fd?) (hturn : w.turn calls = some w') :
    Takes infoHash w (.turn calls) w' := by
  cases hcontrol : w.control with
  | eventLoop =>
      rw [turn, hcontrol] at hturn
      cases hturn
  | draining =>
      rw [turn, hcontrol] at hturn
      cases hturn
      exact drainTurn_takes h.pool hcontrol
  | establishing =>
      rw [turn, hcontrol] at hturn
      cases hturn
      exact establisherTurn_takes h.pool
  | discovering =>
      rw [turn, hcontrol] at hturn
      cases hturn
      exact discoveredTurn_takes h.pool h.registry h.scheduling hcontrol hconnect
  | reconnecting =>
      rw [turn, hcontrol] at hturn
      cases hturn
      exact disconnectedTurn_takes h.pool h.registry h.scheduling hcontrol hconnect
  | retrying =>
      rw [turn, hcontrol] at hturn
      cases hturn
      exact failedTurn_takes h.pool h.registry h.scheduling hcontrol hconnect
  | accepting pendingAccepts =>
      rw [turn, hcontrol] at hturn
      cases hturn
      exact acceptTurn_takes h.pool h.registry hcontrol haccept

/-- The other threads do not touch the pool, nor where the manager stands. -/
theorem Scheduling.congr (h : w.Scheduling) (hcontrol : w'.control = w.control)
    (hinbound : w'.statistics.inboundInflight = w.statistics.inboundInflight)
    (hpool : w'.pool = w.pool) : w'.Scheduling := by
  refine ⟨fun hmem => ?_, fun hdiscovering => ?_⟩
  · rw [hinbound]
    exact h.room (hcontrol ▸ hmem)
  · rw [hpool]
    exact h.available (hcontrol.symm.trans hdiscovering)

/-- **Every step is a move of the ledger, or two.** -/
theorem step_takes (h : w.InOrder) (hstep : w.step infoHash e = some w') : Takes infoHash w e w' := by
  cases e with
  | discover contact =>
      cases hstep
      exact Takes.quiet h.pool (h.scheduling.congr rfl rfl rfl) rfl rfl
  | setEndpoint =>
      simp only [step] at hstep
      split at hstep
      · cases hstep
      · rename_i u us hconnects
        cases hstep
        exact ⟨h.pool, h.scheduling.congr rfl rfl rfl, .one .setEndpoint rfl ⟨u, us, hconnects, rfl⟩⟩
  | endpointDisconnected session perrno =>
      simp only [step] at hstep
      split at hstep
      · cases hstep
      · rename_i ended hended
        cases hstep
        refine ⟨h.pool, h.scheduling.congr rfl rfl rfl,
          .one .endSession trivial ⟨session, ended, _, hended, ?_, rfl⟩⟩
        simp only [endSession]
        split
        · exact Or.inr ⟨perrno, rfl⟩
        · exact Or.inl rfl
  | drainDiscovered =>
      simp only [step] at hstep
      split at hstep
      · cases hstep
        exact Takes.quiet h.pool (@Scheduling.of_control _ .draining rfl (by decide)) rfl rfl
      · cases hstep
  | notifyDisconnected =>
      simp only [step] at hstep
      split at hstep
      · cases hstep
        exact Takes.quiet h.pool (h.scheduling.congr rfl rfl rfl) rfl rfl
      · cases hstep
  | runDaemon =>
      simp only [step] at hstep
      split at hstep
      · cases hstep
        exact Takes.quiet h.pool (@Scheduling.of_control _ .establishing rfl (by decide)) rfl rfl
      · cases hstep
  | serverSocketCallback =>
      simp only [step] at hstep
      split at hstep
      · cases hstep
        exact Takes.quiet h.pool (@Scheduling.of_control _ (.accepting true) rfl (by decide)) rfl rfl
      · cases hstep
  | timerExpires i =>
      simp only [step] at hstep
      split at hstep
      · rename_i hready
        cases hstep
        exact takes_of_callback hready.1 (control_peerTimerCallback w i)
          (peerTimerCallback_moves h.pool h.registry hready.2)
      · cases hstep
  | socketReady i revents calls =>
      simp only [step] at hstep
      split at hstep
      · rename_i hready
        cases hstep
        exact takes_of_callback hready.1 (control_peerSocketCallback w i revents calls)
          (peerSocketCallback_moves h.pool h.registry hready.2 calls)
      · cases hstep
  | turn calls =>
      simp only [step] at hstep
      split at hstep
      · rename_i hfree
        exact turn_takes h hfree.1 hfree.2 hstep
      · cases hstep

theorem Moves.registry (hregistry : Registry w.ledger) {v' : Ledger} (h : Moves infoHash w e v') :
    Registry v' := by
  cases h with
  | one m _ hstep => exact hregistry.step hstep
  | replacing i x v _ hreplace haccept => exact (hregistry.step hreplace).step haccept

theorem InOrder.step (h : w.InOrder) (hstep : w.step infoHash e = some w') : w'.InOrder :=
  have htakes := step_takes h hstep
  ⟨htakes.pool, htakes.scheduling, htakes.moves.registry h.registry⟩

theorem initial_inOrder : World.initial.InOrder := by
  have hfree : ∀ i, World.initial.ledger.occupied i = false := fun _ => rfl
  have hvacant : ∀ i, (World.initial.ledger.object i).Vacant := fun _ => fresh_vacant
  have hsocket : ∀ i, (World.initial.ledger.object i).tcp.socket = none := fun _ => rfl
  refine ⟨SlotPool.initial_wellFormed _, @Scheduling.of_control _ .eventLoop rfl (by decide), ?_, ?_, ?_⟩
  · refine ⟨fun e i => ?_, fun i hi => Bool.noConfusion ((hfree i).symm.trans hi), fun i _ => hvacant i⟩
    exact ⟨fun hmapped => Option.noConfusion rfl (heq_of_eq hmapped),
      fun hocc => Bool.noConfusion ((hfree i).symm.trans hocc.1)⟩
  · exact ⟨fun r hr => absurd hr List.not_mem_nil, List.nodup_nil, fun t ht => absurd ht List.not_mem_nil⟩
  · refine ⟨fun i fd hflight _ => absurd (hsocket i) hflight.socket,
      fun i j fd hi _ _ _ => absurd (hsocket i) hi.socket,
      fun i fd hflight _ => absurd (hsocket i) hflight.socket,
      fun fd hfd => absurd hfd List.not_mem_nil, List.nodup_nil⟩

theorem reachable_inOrder (h : (managerMachine infoHash).Reachable w) : w.InOrder := by
  refine Machine.Reachable.invariant InOrder ?_ ?_ h
  · rintro w rfl
    exact initial_inOrder
  · intro w e w' horder hstep
    exact horder.step hstep

/-- **What the moves keep holds of the ledger in every state of the runs whose steps are good.** -/
theorem ledger_invariant {Good : World → Event → Prop} (I : Ledger → Prop)
    (hinit : I World.initial.ledger)
    (hone : ∀ {w e m v'}, (managerMachine infoHash).Reachable w → I w.ledger → Good w e → w.Causes e m →
      Step infoHash w.ledger m v' → I v')
    (htwo : ∀ {w e i x v v'}, (managerMachine infoHash).Reachable w → I w.ledger → Good w e →
      w.Replaces e i → Step infoHash w.ledger (.replace i) v → Registry v → Step infoHash v (.accept x) v' → I v')
    (h : (managerMachine infoHash).ReachableBy Good w) : I w.ledger := by
  refine Machine.ReachableBy.invariant (fun w => I w.ledger) ?_ ?_ h
  · rintro w rfl
    exact hinit
  · intro w e w' hreachable hI hgood hstep
    have horder := reachable_inOrder hreachable
    cases (step_takes horder hstep).moves with
    | one m hcauses hm => exact hone hreachable hI hgood hcauses hm
    | replacing i x v hreplaces hreplace haccept =>
        exact htwo hreachable hI hgood hreplaces hreplace (horder.registry.step hreplace) haccept

/-! ### Sample runs -/

def sampleInfoHash : Vector Byte 20 := .replicate 20 7

def sampleHandshake : List Byte := Handshake.computeHandshake sampleInfoHash

def sampleStore (port : Byte) : SockStore := .ipv4 (.replicate 4 1) (0, port)

/-- The slot that is acquired first. -/
def firstSlot : ConnectionSlot := 199

/-- Calls that fail, if the turn makes any. -/
def idleCalls : TurnCalls := ⟨⟨.failed eagain, .failed eagain⟩, .failed eagain⟩

def acceptCalls (port : Byte) (fd : Fd) : TurnCalls :=
  { idleCalls with accept := .accepted fd (sampleStore port) }

/-- A contact is discovered, drained and connected to, and the schedulers find no more. -/
def connectRun (port : Byte) (fd : Fd) (result : ConnectReturn) : List Event :=
  [.discover (sampleStore port).contact, .drainDiscovered] ++ List.replicate 2 (.turn idleCalls) ++
    [.runDaemon, .turn idleCalls, .turn { idleCalls with connect := ⟨.opened fd, result⟩ }] ++
      List.replicate 6 (.turn idleCalls)

/-- A connection is accepted, and no other one. -/
def acceptRun (port : Byte) (fd : Fd) : List Event :=
  [.serverSocketCallback, .turn (acceptCalls port fd)] ++ List.replicate 2 (.turn idleCalls)

/-- The handshake of an accepted peer arrives at once and is answered at once. -/
def handshakeRun (i : ConnectionSlot) : List Event :=
  [.socketReady i (.io .read) ⟨.failed, .delivers sampleHandshake, .accepts 68⟩]

/-- No peer is replaced or disconnected, no `connect` is done at once, and no update is popped. -/
def plain (w : World) : Event → Bool
  | .turn ⟨⟨_, connect⟩, accept⟩ =>
      (match connect with
        | .connected => false
        | _ => true) && w.disconnects.isEmpty &&
        match accept with
        | .accepted _ addr => (w.peers addr.contact.endpoint).isNone
        | .failed _ => true
  | .setEndpoint => false
  | _ => true

theorem plain_not_replaces (h : plain w e) : ¬ w.Replaces e i := by
  rintro ⟨⟨connect, accept⟩, fd, addr, rfl, -, -, -, -, rfl, hmapped⟩
  simp only [plain, hmapped, Bool.and_eq_true] at h
  cases h.2

theorem plain_not_drains (h : plain w e) : ¬ w.DrainsDisconnect e i := by
  rintro ⟨⟨connect, accept⟩, d, ds, rfl, -, hdisconnects, -⟩
  simp only [plain, hdisconnects, Bool.and_eq_true] at h
  cases h.1.2

theorem plain_not_connects (h : plain w e) : ¬ w.Connects e .connected := by
  rintro ⟨⟨connect, accept⟩, fd, rfl, rfl, -⟩
  simp only [plain, Bool.and_eq_true] at h
  cases h.1.1

/-- An outgoing attempt, a connected peer and an accepted one. -/
def sampleWorld : World :=
  initial.after sampleInfoHash plain
    (connectRun 80 5 .inprogress ++ acceptRun 81 6 ++ handshakeRun 198 ++ acceptRun 82 7)

theorem sampleWorld_reachableBy :
    (managerMachine sampleInfoHash).ReachableBy (fun w e => plain w e) sampleWorld := by
  rw [sampleWorld, after]
  exact .replay_getD (fun _ _ h => h) (fun _ _ _ h => h) (.init rfl) _

theorem sampleWorld_reachable : (managerMachine sampleInfoHash).Reachable sampleWorld :=
  sampleWorld_reachableBy.reachable

/-- The peer under the endpoint of an accepted connection. -/
def mapped (w : World) : Event → Option ConnectionSlot
  | .turn ⟨_, .accepted _ addr⟩ => w.peers addr.contact.endpoint
  | _ => none

theorem Replaces.mapped (h : w.Replaces e i) : w.mapped e = some i := by
  obtain ⟨⟨connect, accept⟩, fd, addr, rfl, -, -, -, -, rfl, hmapped⟩ := h
  exact hmapped

/-- A peer makes way only in the course of its attempt. -/
def replacesInFlight (w : World) (e : Event) : Bool :=
  (w.mapped e).all fun i =>
    (w.peer i).state != .connected && (w.peer i).state != .failed && (w.peer i).tcp.socket.isSome

theorem replacesInFlight_spec (h : replacesInFlight w e) (hreplaces : w.Replaces e i) :
    (w.peer i).state ≠ .connected ∧ (w.peer i).state ≠ .failed ∧ (w.peer i).tcp.socket ≠ none := by
  rw [replacesInFlight, hreplaces.mapped, Option.all_some, Bool.and_eq_true, Bool.and_eq_true, bne_iff_ne,
    bne_iff_ne] at h
  exact ⟨h.1.1, h.1.2, Option.isSome_iff_ne_none.mp h.2⟩

/-- Two contacts are connected to. The second of the peers then connects to the manager itself, and completes its
handshake. -/
def crossedWorld : World :=
  initial.after sampleInfoHash replacesInFlight
    ([.discover (sampleStore 80).contact, .discover (sampleStore 81).contact, .drainDiscovered] ++
      List.replicate 3 (.turn idleCalls) ++
      [.runDaemon, .turn idleCalls, .turn { idleCalls with connect := ⟨.opened 5, .inprogress⟩ }] ++
      List.replicate 5 (.turn idleCalls) ++ [.turn { idleCalls with connect := ⟨.opened 6, .inprogress⟩ }] ++
      List.replicate 6 (.turn idleCalls) ++ acceptRun 80 7 ++ handshakeRun 197)

theorem crossedWorld_reachableBy :
    (managerMachine sampleInfoHash).ReachableBy (fun w e => replacesInFlight w e) crossedWorld := by
  rw [crossedWorld, after]
  exact .replay_getD (fun _ _ h => h) (fun _ _ _ h => h) (.init rfl) _

/-- The peer of the attempt is gone, and the accepted one has its endpoint. -/
theorem crossedWorld_replaced : crossedWorld.pool.generation 198 = 1 ∧
    crossedWorld.peers (sampleStore 80).contact.endpoint = some 197 := by
  decide +kernel

def afterRun (es : List Event) : World := initial.after sampleInfoHash (fun _ _ => true) es

theorem afterRun_reachable (es : List Event) : (managerMachine sampleInfoHash).Reachable (afterRun es) :=
  Machine.ReachableBy.replay_getD (fun _ _ _ => trivial) (fun _ _ _ h => h) (.init rfl) es

/-- A connected peer is replaced by a connection from its endpoint. -/
def replacedRun : List Event := acceptRun 80 5 ++ handshakeRun firstSlot ++ acceptRun 80 6

end World

end TorrentEngine
