import TorrentEngine.PeerStages

/-! What the slots hold: the map of peers and the pool agree, no occupied slot is forgotten, and when a
free slot is clean. -/

open Transition

namespace TorrentEngine

open PeerConnection

namespace Ledger

variable {v v' : Ledger} {i : ConnectionSlot} {m : Move} {infoHash : Vector Byte 20}

/-! ### Retries -/

/-- Every peer that waits for a retry is in the queue. -/
def Queued (v : Ledger) : Prop := ∀ i, (v.object i).Waiting → ⟨i, v.generation i⟩ ∈ v.retryQueue

/-- A move about one slot that drops no entry of another. -/
theorem Queued.slot (h : Queued v) (hstep : Step infoHash v m v') (hslot : m.slot = some i)
    {p : PeerConnection} (hobject : v'.object i = p)
    (hqueue : ∀ j, j ≠ i → ⟨j, v.generation j⟩ ∈ v.retryQueue → ⟨j, v.generation j⟩ ∈ v'.retryQueue)
    (hi : p.Waiting → ⟨i, v'.generation i⟩ ∈ v'.retryQueue) : Queued v' := by
  subst hobject
  intro j hwaiting
  by_cases hji : j = i
  · subst hji
    exact hi hwaiting
  · have hsame : SameSlot v v' j := hstep.sameSlot_of_ne hslot hji
    rw [hsame.object] at hwaiting
    rw [hsame.generation]
    exact hqueue j hji (h j hwaiting)

theorem Queued.same (h : Queued v) (hobject : v'.object = v.object)
    (hgeneration : v'.generation = v.generation)
    (hqueue : ∀ j, ⟨j, v.generation j⟩ ∈ v.retryQueue → ⟨j, v.generation j⟩ ∈ v'.retryQueue) :
    Queued v' := by
  intro j hwaiting
  rw [hobject] at hwaiting
  rw [hgeneration]
  exact hqueue j (h j hwaiting)

/-- The entry that a move pops is of its own slot. -/
theorem mem_of_popped {j : ConnectionSlot} {rs : List PeerFailureUpdate}
    (hqueue : v.retryQueue = ⟨i, v.generation i⟩ :: rs) (hj : j ≠ i)
    (hmem : ⟨j, v.generation j⟩ ∈ v.retryQueue) : ⟨j, v.generation j⟩ ∈ rs := by
  rw [hqueue] at hmem
  exact (List.mem_cons.mp hmem).resolve_left fun heq => hj (congrArg PeerFailureUpdate.connection heq)

theorem Step.queued (hstep : Step infoHash v m v') (h : Queued v) : Queued v' := by
  have hcopy := hstep
  cases m with
  | quiet =>
      cases hstep
      exact h
  | setEndpoint =>
      obtain ⟨u, us, -, rfl⟩ := hstep
      exact h.same rfl rfl fun _ => id
  | endSession =>
      obtain ⟨k, s, ds, -, -, rfl⟩ := hstep
      exact h.same rfl rfl fun _ => id
  | dropDisconnect =>
      obtain ⟨d, ds, -, -, rfl⟩ := hstep
      exact h.same rfl rfl fun _ => id
  | dropRetry =>
      obtain ⟨r, rs, hqueue, hstale, rfl⟩ := hstep
      refine h.same rfl rfl fun j hmem => ?_
      rw [hqueue] at hmem
      refine (List.mem_cons.mp hmem).resolve_left ?_
      rintro rfl
      exact hstale rfl
  | recycle i =>
      obtain ⟨-, p, n, hp, -, -, rfl⟩ := hstep
      exact h.slot hcopy rfl (Function.update_self _ _ _) (fun _ _ => id) fun hw =>
        absurd hp hw.not_vacant
  | discover i immediate =>
      obtain ⟨-, -, p, fd, hp, -, -, rfl⟩ := hstep
      exact h.slot hcopy rfl (Function.update_self _ _ _) (fun _ _ => id) fun hw =>
        absurd hw hp.inFlight.not_waiting
  | retry i immediate =>
      obtain ⟨-, -, p, fd, rs, hp, -, hqueue, -, rfl⟩ := hstep
      exact h.slot hcopy rfl (Function.update_self _ _ _) (fun _ hj => mem_of_popped hqueue hj) fun hw =>
        absurd hw hp.inFlight.not_waiting
  | abandon i =>
      obtain ⟨-, -, p, rs, hp, -, hqueue, rfl⟩ := hstep
      exact h.slot hcopy rfl (Function.update_self _ _ _) (fun _ hj => mem_of_popped hqueue hj) fun hw =>
        absurd hp hw.not_vacant
  | accept i =>
      obtain ⟨-, p, fd, hp, -, -, rfl⟩ := hstep
      exact h.slot hcopy rfl (Function.update_self _ _ _) (fun _ _ => id) fun hw =>
        absurd hw hp.inFlight.not_waiting
  | replace i =>
      obtain ⟨-, p, hp, ⟨-, -, rfl⟩ | ⟨-, -, rfl⟩⟩ := hstep
      · exact h.slot hcopy rfl (Function.update_self _ _ _) (fun _ _ => id) fun hw =>
          absurd hp hw.not_vacant
      · exact h.slot hcopy rfl (Function.update_self _ _ _) (fun _ _ => id) fun hw =>
          absurd hp hw.not_vacant
  | disconnect i =>
      obtain ⟨-, -, p, d, ds, hp, -, -, -, -, rfl⟩ := hstep
      exact h.slot hcopy rfl (Function.update_self _ _ _) (fun _ _ => id) fun hw =>
        absurd hp hw.not_vacant
  | progress i =>
      obtain ⟨-, -, p, kernel, hp, -, -, rfl, -⟩ := hstep
      exact h.slot hcopy rfl (Function.update_self _ _ _) (fun _ _ => id) fun hw =>
        absurd hw hp.not_waiting
  | fail i =>
      obtain ⟨-, -, -, p, hp, -, rfl⟩ := hstep
      exact h.slot hcopy rfl (Function.update_self _ _ _) (fun _ _ => id) fun hw =>
        absurd hw hp.not_waiting
  | discard i =>
      obtain ⟨-, -, p, hp, -, rfl⟩ := hstep
      exact h.slot hcopy rfl (Function.update_self _ _ _) (fun _ _ => id) fun hw =>
        absurd hp hw.not_vacant
  | dispatch i =>
      obtain ⟨-, -, p, kernel, cs, hp, -, -, -, -, rfl⟩ := hstep
      exact h.slot hcopy rfl (Function.update_self _ _ _) (fun _ _ => id) fun hw =>
        absurd hp hw.not_connected
  | requeue i =>
      obtain ⟨-, -, p, -, -, rfl⟩ := hstep
      exact h.slot hcopy rfl (Function.update_self _ _ _) (fun _ _ => List.mem_append_left _) fun _ =>
        List.mem_append_right _ List.mem_cons_self

/-! ### Free slots -/

/-- No slot was ever asked for in vain. -/
theorem Step.exhausted_eq (hstep : Step infoHash v m v') : v'.exhausted = v.exhausted := by
  cases m with
  | quiet =>
      cases hstep
      rfl
  | setEndpoint =>
      obtain ⟨u, us, -, rfl⟩ := hstep
      rfl
  | endSession =>
      obtain ⟨k, s, ds, -, -, rfl⟩ := hstep
      rfl
  | dropDisconnect =>
      obtain ⟨d, ds, -, -, rfl⟩ := hstep
      rfl
  | dropRetry =>
      obtain ⟨r, rs, -, -, rfl⟩ := hstep
      rfl
  | recycle i =>
      obtain ⟨-, p, n, -, -, -, rfl⟩ := hstep
      rfl
  | discover i immediate =>
      obtain ⟨-, -, p, fd, -, -, -, rfl⟩ := hstep
      rfl
  | retry i immediate =>
      obtain ⟨-, -, p, fd, rs, -, -, -, -, rfl⟩ := hstep
      rfl
  | abandon i =>
      obtain ⟨-, -, p, rs, -, -, -, rfl⟩ := hstep
      rfl
  | accept i =>
      obtain ⟨-, p, fd, -, -, -, rfl⟩ := hstep
      rfl
  | replace i => obtain ⟨-, p, -, ⟨-, -, rfl⟩ | ⟨-, -, rfl⟩⟩ := hstep <;> rfl
  | disconnect i =>
      obtain ⟨-, -, p, d, ds, -, -, -, -, -, rfl⟩ := hstep
      rfl
  | progress i =>
      obtain ⟨-, -, p, kernel, -, -, -, rfl, -⟩ := hstep
      rfl
  | fail i =>
      obtain ⟨-, -, -, p, -, -, rfl⟩ := hstep
      rfl
  | discard i =>
      obtain ⟨-, -, p, -, -, rfl⟩ := hstep
      rfl
  | dispatch i =>
      obtain ⟨-, -, p, kernel, cs, -, -, -, -, -, rfl⟩ := hstep
      rfl
  | requeue i =>
      obtain ⟨-, -, p, -, -, rfl⟩ := hstep
      rfl

/-- The free slots record no socket, and none was ever given back with one. -/
structure Clean (v : Ledger) : Prop where
  socket : ∀ i, v.occupied i = false → (v.object i).tcp.socket = none
  poisoned : v.poisoned = 0

/-- A move after which its slot is occupied or records no socket. -/
theorem Clean.slot (h : Clean v) (hstep : Step infoHash v m v') (hslot : m.slot = some i)
    (hpoisoned : v'.poisoned = v.poisoned)
    (hi : v'.occupied i = true ∨ (v'.object i).tcp.socket = none) : Clean v' := by
  refine ⟨fun j hocc => ?_, hpoisoned.trans h.poisoned⟩
  by_cases hji : j = i
  · subst hji
    exact hi.resolve_left fun htrue => Bool.noConfusion (hocc.symm.trans htrue)
  · have hsame : SameSlot v v' j := hstep.sameSlot_of_ne hslot hji
    rw [hsame.occupied] at hocc
    rw [hsame.object]
    exact h.socket j hocc

theorem socket_update {p : PeerConnection} (object : ConnectionSlot → PeerConnection) (i : ConnectionSlot)
    (hp : p.tcp.socket = none) : (Function.update object i p i).tcp.socket = none := by
  rw [Function.update_self, hp]

/-- Only a connected peer can leave its socket behind. -/
theorem Step.clean (hstep : Step infoHash v m v') (h : Clean v)
    (hreplace : ∀ i, m = .replace i → (v.object i).state ≠ .connected)
    (hdisconnect : ∀ i, m ≠ .disconnect i) : Clean v' := by
  have hcopy := hstep
  cases m with
  | quiet =>
      cases hstep
      exact h
  | setEndpoint =>
      obtain ⟨u, us, -, rfl⟩ := hstep
      exact ⟨h.socket, h.poisoned⟩
  | endSession =>
      obtain ⟨k, s, ds, -, -, rfl⟩ := hstep
      exact ⟨h.socket, h.poisoned⟩
  | dropDisconnect =>
      obtain ⟨d, ds, -, -, rfl⟩ := hstep
      exact ⟨h.socket, h.poisoned⟩
  | dropRetry =>
      obtain ⟨r, rs, -, -, rfl⟩ := hstep
      exact ⟨h.socket, h.poisoned⟩
  | recycle i =>
      obtain ⟨hi, p, n, -, hsocket, hn, rfl⟩ := hstep
      have hnone : p.tcp.socket = none := hsocket.trans (h.socket i hi)
      exact h.slot hcopy rfl (hn hnone) (Or.inr (socket_update _ i hnone))
  | discover i immediate =>
      obtain ⟨-, -, p, fd, -, -, -, rfl⟩ := hstep
      exact h.slot hcopy rfl rfl (Or.inl (Function.update_self _ _ _))
  | retry i immediate =>
      obtain ⟨hi, -, p, fd, rs, -, -, -, -, rfl⟩ := hstep
      exact h.slot hcopy rfl rfl (Or.inl hi)
  | abandon i =>
      obtain ⟨-, -, p, rs, -, hsocket, -, rfl⟩ := hstep
      exact h.slot hcopy rfl rfl (Or.inr (socket_update _ i hsocket))
  | accept i =>
      obtain ⟨-, p, fd, -, -, -, rfl⟩ := hstep
      exact h.slot hcopy rfl rfl (Or.inl (Function.update_self _ _ _))
  | replace i =>
      obtain ⟨-, p, -, ⟨-, hsocket, rfl⟩ | ⟨hstate, -, -⟩⟩ := hstep
      · exact h.slot hcopy rfl rfl (Or.inr (socket_update _ i hsocket))
      · exact absurd hstate (hreplace i rfl)
  | disconnect i => exact absurd rfl (hdisconnect i)
  | progress i =>
      obtain ⟨hi, -, p, kernel, -, -, -, rfl, -⟩ := hstep
      exact h.slot hcopy rfl rfl (Or.inl hi)
  | fail i =>
      obtain ⟨hi, -, -, p, -, -, rfl⟩ := hstep
      exact h.slot hcopy rfl rfl (Or.inl hi)
  | discard i =>
      obtain ⟨-, -, p, -, hsocket, rfl⟩ := hstep
      exact h.slot hcopy rfl rfl (Or.inr (socket_update _ i hsocket))
  | dispatch i =>
      obtain ⟨hi, -, p, kernel, cs, -, -, -, -, -, rfl⟩ := hstep
      exact h.slot hcopy rfl rfl (Or.inl hi)
  | requeue i =>
      obtain ⟨hi, -, p, -, -, rfl⟩ := hstep
      exact h.slot hcopy rfl rfl (Or.inl hi)

end Ledger

namespace World

open Ledger

variable {w w' : World} {e : Event} {infoHash : Vector Byte 20}

/-! ### The map of peers and the pool -/

theorem not_mem_of_acquisitionFailures {failed : List Assertion} (h : acquisitionFailures failed = 0) :
    .acquisitionSuccessful ∉ failed := by
  rw [acquisitionFailures] at h
  exact List.count_eq_zero.mp h

theorem acquisition_successful (h : (managerMachine infoHash).Reachable w) :
    .acquisitionSuccessful ∉ w.failedAssertions := by
  have hnone : w.ledger.exhausted = 0 := by
    refine ledger_invariant (fun v => v.exhausted = 0) ?_ ?_ ?_ h
    · show acquisitionFailures [] = 0
      rw [acquisitionFailures]
      rfl
    · intro w e m v' _ hI _ _ hm
      exact hm.exhausted_eq.trans hI
    · intro w e i x v v' _ hI _ _ hreplace _ haccept
      exact haccept.exhausted_eq.trans (hreplace.exhausted_eq.trans hI)
  exact not_mem_of_acquisitionFailures hnone

/-- **The map of peers and the pool agree.** The map takes its keys to the occupied slots one to one, a key
is the contact of its slot, no two managed peers have the same contact, no available slot is mapped, and a
slot that is asked for is there. -/
theorem peers_agree (h : (managerMachine infoHash).Reachable w) :
    (∀ endpoint i, w.peers endpoint = some i →
        w.pool.occupied i = true ∧ (w.peer i).contact.endpoint = endpoint) ∧
      (∀ i, w.pool.occupied i = true → ∃! endpoint, w.peers endpoint = some i) ∧
      (∀ i j, w.pool.occupied i = true → w.pool.occupied j = true →
        (w.peer i).contact.endpoint = (w.peer j).contact.endpoint → i = j) ∧
      (∀ i, i ∈ w.pool.availableSlots ↔ w.pool.occupied i = false) ∧
      (∀ i ∈ w.pool.availableSlots, ∀ endpoint, w.peers endpoint ≠ some i) ∧
      .acquisitionSuccessful ∉ w.failedAssertions := by
  have horder := reachable_inOrder h
  have hiff := horder.registry.registered.peers_iff
  refine ⟨fun endpoint i => (hiff endpoint i).mp, fun i hi => ?_, fun i j hi hj hend => ?_,
    horder.pool.mem_iff, fun i hi endpoint hmapped => ?_, acquisition_successful h⟩
  · refine ⟨(w.peer i).contact.endpoint, (hiff _ i).mpr ⟨hi, rfl⟩, fun endpoint hmapped => ?_⟩
    exact ((hiff endpoint i).mp hmapped).2.symm
  · have hmapped : w.ledger.peers (w.peer i).contact.endpoint = some i := (hiff _ i).mpr ⟨hi, rfl⟩
    have hmapped' : w.ledger.peers (w.peer i).contact.endpoint = some j := (hiff _ j).mpr ⟨hj, hend.symm⟩
    exact Option.some.inj (hmapped.symm.trans hmapped')
  · have hfree : w.pool.occupied i = false := (horder.pool.mem_iff i).mp hi
    have hocc : w.pool.occupied i = true := ((hiff endpoint i).mp hmapped).1
    exact Bool.noConfusion (hfree.symm.trans hocc)

theorem peers_agree_sample : ∃! endpoint, sampleWorld.peers endpoint = some 198 :=
  (peers_agree sampleWorld_reachable).2.1 198 (by decide +kernel)

/-! ### No peer is stranded -/

/-- What can still reach the peer of an occupied slot. -/
inductive PeerClass where
  | inFlight
  | failed
  | waiting
  | connected

/-- In flight, the peer is reached by its watchers; failed, by its timer; waiting, by the one entry of the
retry queue that is as new as its slot; connected, by the transfer side. -/
def InClass (w : World) (i : ConnectionSlot) : PeerClass → Prop
  | .inFlight => ((w.peer i).state = .transport ∨ (w.peer i).state = .handshake ∨
        (w.peer i).state = .disconnected) ∧
      (∃ fd, (w.peer i).tcp.socket = some fd ∧ (w.kernel fd).isSome) ∧
      (w.peer i).forSock.active = true ∧ (w.peer i).forTimer.active = true
  | .failed => (w.peer i).state = .failed ∧ (w.peer i).tcp.socket = none ∧
      (w.peer i).forSock.Stopped ∧ (w.peer i).forTimer.active = true
  | .waiting => (w.peer i).state = .transport ∧ (w.peer i).tcp.socket = none ∧
      (w.peer i).forSock.Stopped ∧ (w.peer i).forTimer.active = false ∧
      w.retryQueue.count ⟨i, w.pool.generation i⟩ = 1
  | .connected => (w.peer i).state = .connected ∧ (w.peer i).forSock.Stopped ∧
      (w.peer i).forTimer.active = false

theorem queued (h : (managerMachine infoHash).Reachable w) : w.ledger.Queued := by
  refine ledger_invariant Queued ?_ ?_ ?_ h
  · exact fun i hwaiting => absurd fresh_vacant hwaiting.not_vacant
  · exact fun _ hI _ _ hm => hm.queued hI
  · exact fun _ hI _ _ hreplace _ haccept => haccept.queued (hreplace.queued hI)

/-- A peer is in one class at most. -/
theorem InClass.unique {i : ConnectionSlot} {c c' : PeerClass} (h : w.InClass i c)
    (h' : w.InClass i c') : c = c' := by
  have hsock : (w.peer i).forSock.active = true → ¬ (w.peer i).forSock.Stopped :=
    fun hactive hstopped => Bool.noConfusion (hactive.symm.trans hstopped.1)
  have hstate : ∀ {s s' : Pstate}, (w.peer i).state = s → (w.peer i).state = s' → s ≠ s' → False :=
    fun hs hs' hne => hne (hs.symm.trans hs')
  cases c with
  | inFlight =>
      cases c' with
      | inFlight => rfl
      | failed => exact absurd h'.2.2.1 (hsock h.2.2.1)
      | waiting => exact absurd h'.2.2.1 (hsock h.2.2.1)
      | connected => exact absurd h'.2.1 (hsock h.2.2.1)
  | failed =>
      cases c' with
      | inFlight => exact absurd h.2.2.1 (hsock h'.2.2.1)
      | failed => rfl
      | waiting => exact (hstate h.1 h'.1 (by decide)).elim
      | connected => exact (hstate h.1 h'.1 (by decide)).elim
  | waiting =>
      cases c' with
      | inFlight => exact absurd h.2.2.1 (hsock h'.2.2.1)
      | failed => exact (hstate h.1 h'.1 (by decide)).elim
      | waiting => rfl
      | connected => exact (hstate h.1 h'.1 (by decide)).elim
  | connected =>
      cases c' with
      | inFlight => exact absurd h.2.1 (hsock h'.2.2.1)
      | failed => exact (hstate h.1 h'.1 (by decide)).elim
      | waiting => exact (hstate h.1 h'.1 (by decide)).elim
      | connected => rfl

/-- **No peer is stranded.** Each occupied slot is in exactly one class, and the watchers of each free
slot are stopped. -/
theorem not_stranded (h : (managerMachine infoHash).Reachable w) :
    (∀ i, w.pool.occupied i = true → ∃! c, w.InClass i c) ∧
      ∀ i, w.pool.occupied i = false →
        (w.peer i).forSock.Stopped ∧ (w.peer i).forTimer.active = false := by
  have horder := reachable_inOrder h
  have hregistry := horder.registry
  refine ⟨fun i hi => ?_, fun i hi => ?_⟩
  · have hclass : ∃ c, w.InClass i c := by
      cases hregistry.registered.staged i hi with
      | inFlight hp =>
          obtain ⟨fd, hfd⟩ := Option.ne_none_iff_exists'.mp hp.socket
          exact ⟨.inFlight, hp.state.imp_right Or.inl,
            ⟨fd, hfd, hregistry.descriptors.flight_open i fd hp hfd⟩, hp.sock, hp.timer⟩
      | failed hp => exact ⟨.failed, hp.state, hp.socket, hp.sock, hp.timer⟩
      | waiting hp =>
          refine ⟨.waiting, hp.state, hp.socket, hp.sock, hp.timer, ?_⟩
          exact List.count_eq_one_of_mem hregistry.references.nodup (queued h i hp)
      | connected hp => exact ⟨.connected, hp.state, hp.sock, hp.timer⟩
    obtain ⟨c, hc⟩ := hclass
    exact ⟨c, hc, fun c' hc' => hc'.unique hc⟩
  · have hvacant := hregistry.registered.vacant i hi
    exact ⟨hvacant.sock, hvacant.timer⟩

theorem not_stranded_sample : ∃! c, sampleWorld.InClass 198 c :=
  (not_stranded sampleWorld_reachable).1 198 (by decide +kernel)

/-! ### Clean slots -/

/-- No connected peer is deleted: none is replaced, and none is disconnected. -/
def DeletesNoConnected (w : World) (e : Event) : Prop :=
  (∀ i, w.Replaces e i → (w.peer i).state ≠ .connected) ∧ ∀ i, ¬ w.DrainsDisconnect e i

theorem not_mem_of_teardownFailures {failed : List Assertion} (h : teardownFailures failed = 0) :
    .teardownSocket ∉ failed := by
  rw [teardownFailures] at h
  exact List.count_eq_zero.mp h

theorem clean (h : (managerMachine infoHash).ReachableBy DeletesNoConnected w) : w.ledger.Clean := by
  refine ledger_invariant Clean ⟨fun _ _ => rfl, ?_⟩ ?_ ?_ h
  · show teardownFailures [] = 0
    rw [teardownFailures]
    rfl
  · intro w e m v' _ hI hgood hcauses hm
    refine hm.clean hI ?_ ?_
    · rintro i rfl
      exact absurd hcauses not_false
    · rintro i rfl
      exact hgood.2 i hcauses
  · intro w e i x v v' _ hI hgood hreplaces hreplace _ haccept
    refine haccept.clean (hreplace.clean hI ?_ fun _ => Move.noConfusion) (fun _ => Move.noConfusion)
      fun _ => Move.noConfusion
    rintro _ ⟨⟩
    exact hgood.1 i hreplaces

/-- **Free slots are clean** as long as no connected peer is deleted: the peer of a free slot is as new, no
peer was torn down with its socket recorded, and the slot that is acquired next records none. -/
theorem free_slots_clean (h : (managerMachine infoHash).ReachableBy DeletesNoConnected w) :
    (∀ i, w.pool.occupied i = false → (w.peer i).tcp.socket = none ∧ (w.peer i).state = .null ∧
        (w.peer i).source = .null ∧ (w.peer i).recvBuffer.empty = true ∧
        (w.peer i).sendBuffer.empty = true ∧ (w.peer i).failures = 0) ∧
      .teardownSocket ∉ w.failedAssertions ∧
      ∀ x pool, w.pool.acquire = some (x, pool) → (w.peer x).tcp.socket = none := by
  have horder := reachable_inOrder h.reachable
  have hclean := clean h
  refine ⟨fun i hi => ?_, not_mem_of_teardownFailures hclean.poisoned, fun x pool hacquire => ?_⟩
  · have hvacant := horder.registry.registered.vacant i hi
    refine ⟨hclean.socket i hi, hvacant.state, hvacant.source, ?_, ?_, hvacant.failures⟩
    · exact beq_iff_eq.mpr hvacant.buffers.recv_readable
    · exact beq_iff_eq.mpr hvacant.buffers.send_readable
  · exact hclean.socket x (horder.pool.acquire hacquire).2.1

/-- An accepted peer answers with the handshake of another torrent, and is deleted. -/
def refusedWorld : World :=
  initial.after sampleInfoHash plain (acceptRun 80 5 ++ [.socketReady firstSlot (.io .read)
    ⟨.failed, .delivers (Handshake.computeHandshake (.replicate 20 8)), .accepts 68⟩])

theorem refusedWorld_reachableBy :
    (managerMachine sampleInfoHash).ReachableBy DeletesNoConnected refusedWorld := by
  rw [refusedWorld, after]
  refine .replay_getD (fun _ _ hplain => ?_) (fun _ _ _ h => h) (.init rfl) _
  exact ⟨fun _ hreplaces => absurd hreplaces (plain_not_replaces hplain), fun _ => plain_not_drains hplain⟩

theorem free_slots_clean_refused : refusedWorld.pool.generation firstSlot = 1 ∧
    (refusedWorld.peer firstSlot).tcp.socket = none ∧ (refusedWorld.peer firstSlot).state = .null ∧
      .teardownSocket ∉ refusedWorld.failedAssertions := by
  obtain ⟨hfree, hteardown, -⟩ := free_slots_clean refusedWorld_reachableBy
  obtain ⟨hsocket, hstate, -⟩ := hfree firstSlot (by decide +kernel)
  exact ⟨by decide +kernel, hsocket, hstate, hteardown⟩

/-- The slot of the replaced peer is given back with its socket recorded, and is the next to be acquired. -/
theorem free_slot_poisoned : (managerMachine sampleInfoHash).Reachable (afterRun replacedRun) ∧
    (afterRun replacedRun).pool.occupied 199 = false ∧
      ((afterRun replacedRun).peer 199).tcp.socket = some 5 ∧
        Assertion.teardownSocket ∈ (afterRun replacedRun).failedAssertions ∧
          (afterRun replacedRun).pool.acquire.map Prod.fst = some 199 :=
  ⟨afterRun_reachable _, by decide +kernel, by decide +kernel, by decide +kernel, by decide +kernel⟩

end World

end TorrentEngine
