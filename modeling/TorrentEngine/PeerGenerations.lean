import TorrentEngine.PeerStages

/-! Generations: the generation of a slot never falls, and as long as it stands still the slot keeps its
peer. So an update that was made out for one peer of a slot cannot touch a later one. -/

open Transition

namespace TorrentEngine

open PeerConnection

namespace Ledger

variable {v v₁ v' : Ledger} {i j : ConnectionSlot} {m : Move} {infoHash : Vector Byte 20}

/-! ### One slot from one state to a later one -/

/-- The generation has not fallen, and a peer is still there if the generation stands. -/
structure Continues (v v' : Ledger) (j : ConnectionSlot) : Prop where
  le : v.generation j ≤ v'.generation j
  same : v'.generation j = v.generation j → v.occupied j = true →
    v'.occupied j = true ∧ (v'.object j).contact.endpoint = (v.object j).contact.endpoint

namespace Continues

theorem refl (v : Ledger) (j : ConnectionSlot) : Continues v v j := ⟨le_rfl, fun _ hj => ⟨hj, rfl⟩⟩

theorem trans (h : Continues v v₁ j) (h' : Continues v₁ v' j) : Continues v v' j := by
  refine ⟨h.le.trans h'.le, fun hgeneration hj => ?_⟩
  have hle := h.le
  have hle' := h'.le
  obtain ⟨hocc, hend⟩ := h.same (by omega) hj
  obtain ⟨hocc', hend'⟩ := h'.same (by omega) hocc
  exact ⟨hocc', hend'.trans hend⟩

theorem of_sameSlot (h : SameSlot v v' j) : Continues v v' j := by
  refine ⟨h.generation.ge, fun _ hj => ⟨h.occupied.trans hj, ?_⟩⟩
  rw [h.object]

/-- The slot was given back. -/
theorem of_bump (h : v'.generation i = v.generation i + 1) : Continues v v' i :=
  ⟨by omega, fun hsame => by omega⟩

/-- The slot was taken. -/
theorem of_free (hi : v.occupied i = false) (h : v'.generation i = v.generation i) :
    Continues v v' i :=
  ⟨h.ge, fun _ hocc => Bool.noConfusion (hi.symm.trans hocc)⟩

/-- The peer changed. -/
theorem of_object {p : PeerConnection} (hi : v.occupied i = true) (h : v'.generation i = v.generation i)
    (hoccupied : v'.occupied i = v.occupied i) (hobject : v'.object i = p)
    (hend : p.contact.endpoint = (v.object i).contact.endpoint) : Continues v v' i := by
  refine ⟨h.ge, fun _ _ => ⟨hoccupied.trans hi, ?_⟩⟩
  rw [hobject, hend]

end Continues

theorem Step.continues (hstep : Step infoHash v m v') (j : ConnectionSlot) : Continues v v' j := by
  by_cases hj : m.slot ≠ some j
  · exact .of_sameSlot (hstep.sameSlot hj)
  · have hslot : m.slot = some j := not_not.mp hj
    cases m with
    | quiet | setEndpoint | endSession | dropDisconnect | dropRetry => cases hslot
    | recycle i =>
        cases hslot
        obtain ⟨-, p, n, -, -, -, rfl⟩ := hstep
        exact .of_bump (Function.update_self _ _ _)
    | discover i immediate =>
        cases hslot
        obtain ⟨hi, -, p, fd, -, -, -, rfl⟩ := hstep
        exact .of_free hi rfl
    | retry i immediate =>
        cases hslot
        obtain ⟨hi, -, p, fd, rs, -, -, -, hend, rfl⟩ := hstep
        exact .of_object hi rfl rfl (Function.update_self _ _ _) hend
    | abandon i =>
        cases hslot
        obtain ⟨-, -, p, rs, -, -, -, rfl⟩ := hstep
        exact .of_bump (Function.update_self _ _ _)
    | accept i =>
        cases hslot
        obtain ⟨hi, p, fd, -, -, -, rfl⟩ := hstep
        exact .of_free hi rfl
    | replace i =>
        cases hslot
        obtain ⟨-, p, -, ⟨-, -, rfl⟩ | ⟨-, -, rfl⟩⟩ := hstep
        · exact .of_bump (Function.update_self _ _ _)
        · exact .of_bump (Function.update_self _ _ _)
    | disconnect i =>
        cases hslot
        obtain ⟨-, -, p, d, ds, -, -, -, -, -, rfl⟩ := hstep
        exact .of_bump (Function.update_self _ _ _)
    | progress i =>
        cases hslot
        obtain ⟨hi, -, p, kernel, -, hsame, -, rfl, -⟩ := hstep
        exact .of_object hi rfl rfl (Function.update_self _ _ _) hsame.endpoint
    | fail i =>
        cases hslot
        obtain ⟨hi, -, -, p, -, hend, rfl⟩ := hstep
        exact .of_object hi rfl rfl (Function.update_self _ _ _) hend
    | discard i =>
        cases hslot
        obtain ⟨-, -, p, -, -, rfl⟩ := hstep
        exact .of_bump (Function.update_self _ _ _)
    | dispatch i =>
        cases hslot
        obtain ⟨hi, -, p, kernel, cs, -, hsame, -, -, -, rfl⟩ := hstep
        exact .of_object hi rfl rfl (Function.update_self _ _ _) hsame.endpoint
    | requeue i =>
        cases hslot
        obtain ⟨hi, -, p, -, hend, rfl⟩ := hstep
        exact .of_object hi rfl rfl (Function.update_self _ _ _) hend

end Ledger

namespace World

open Ledger

variable {w w' w'' : World} {e : Event} {es : List Event} {i : ConnectionSlot} {generation : Nat}
  {infoHash : Vector Byte 20}

/-! ### Updates along a run -/

theorem Moves.continues {v' : Ledger} (h : Moves infoHash w e v') (j : ConnectionSlot) :
    Continues w.ledger v' j := by
  cases h with
  | one m _ hm => exact hm.continues j
  | replacing i x v _ hreplace haccept => exact (hreplace.continues j).trans (haccept.continues j)

theorem run_continues (h : (managerMachine infoHash).Reachable w)
    (hrun : (managerMachine infoHash).Run w es w') (j : ConnectionSlot) :
    Continues w.ledger w'.ledger j := by
  induction hrun with
  | refl => exact Continues.refl _ j
  | snoc hrun hstep ih =>
      exact ih.trans ((step_takes (reachable_inOrder (hrun.reachable h)) hstep).moves.continues j)

/-- An update about the slot with this generation is in the queues, or what it will be made from: an entry
of the retry queue, a connect update, a session or a disconnect update. -/
def Carries (w : World) (i : ConnectionSlot) (generation : Nat) : Prop :=
  ⟨i, generation⟩ ∈ w.retryQueue ∨ (i, generation) ∈ w.ledger.references

/-- The step drains an update about the slot with this generation. -/
def Drains (w : World) (e : Event) (i : ConnectionSlot) (generation : Nat) : Prop :=
  ∃ calls, e = .turn calls ∧
    ((w.control = .retrying ∧ ∃ rs, w.retryQueue = ⟨i, generation⟩ :: rs) ∨
      (w.control = .reconnecting ∧ ∃ perrno ds, w.disconnects = ⟨i, generation, perrno⟩ :: ds))

/-- The state is one of those that a run goes through. -/
def Between (infoHash : Vector Byte 20) (w : World) (es : List Event) (w' w₁ : World) : Prop :=
  ∃ es₁ es₂, es = es₁ ++ es₂ ∧ (managerMachine infoHash).Run w es₁ w₁ ∧
    (managerMachine infoHash).Run w₁ es₂ w'

theorem InOrder.carries (h : w.InOrder) (hcarries : w.Carries i generation) :
    generation ≤ w.pool.generation i ∧
      (generation = w.pool.generation i → w.pool.occupied i = true) := by
  have hnot : ∀ {p : PeerConnection}, p = w.peer i → ¬ p.Vacant → w.pool.occupied i = true := by
    rintro p rfl hp
    cases hocc : w.pool.occupied i with
    | true => rfl
    | false => exact absurd (h.registry.registered.vacant i hocc) hp
  rcases hcarries with hmem | hmem
  · obtain ⟨hle, hwaiting⟩ := h.registry.references.retry _ hmem
    exact ⟨hle, fun heq => hnot rfl (hwaiting heq).not_vacant⟩
  · obtain ⟨hle, hconnected⟩ := h.registry.references.dispatched _ hmem
    exact ⟨hle, fun heq => hnot rfl (hconnected heq).not_vacant⟩

/-- The drain of an update that is older than its slot only pops it. -/
theorem drain_stale (hdrains : w.Drains e i generation) (hstale : w.pool.generation i ≠ generation)
    (hstep : w.step infoHash e = some w') :
    w'.pool = w.pool ∧ w'.peers = w.peers ∧ w'.kernel = w.kernel := by
  obtain ⟨calls, rfl, ⟨hcontrol, rs, hqueue⟩ | ⟨hcontrol, perrno, ds, hqueue⟩⟩ := hdrains
  · simp only [step] at hstep
    split at hstep
    · rw [turn, hcontrol] at hstep
      simp only [failedTurn, hqueue, if_pos hstale] at hstep
      cases hstep
      exact ⟨rfl, rfl, rfl⟩
    · cases hstep
  · simp only [step] at hstep
    split at hstep
    · rw [turn, hcontrol] at hstep
      simp only [disconnectedTurn, hqueue, if_pos hstale] at hstep
      cases hstep
      exact ⟨rfl, rfl, rfl⟩
    · cases hstep

/-- **Stale updates are inert.** When the slot of an update was free at some time before the update is
drained, the drain changes no slot, no registration and no descriptor. Only when the slot has kept its peer
all the time is the update still as new as the slot. -/
theorem stale_update_inert (h : (managerMachine infoHash).Reachable w)
    (hcarries : w.Carries i generation) (hdrains : w'.Drains e i generation)
    (hstep : w'.step infoHash e = some w'') :
    ((∃ w₁, Between infoHash w es w' w₁ ∧ w₁.pool.occupied i = false) →
        w''.pool = w'.pool ∧ w''.peers = w'.peers ∧ w''.kernel = w'.kernel) ∧
      (w'.pool.generation i = generation → ∀ w₁, Between infoHash w es w' w₁ →
        w₁.pool.occupied i = true ∧ (w₁.peer i).contact.endpoint = (w'.peer i).contact.endpoint) := by
  have hkept : w'.pool.generation i = generation → ∀ w₁, Between infoHash w es w' w₁ →
      w₁.pool.occupied i = true ∧ (w₁.peer i).contact.endpoint = (w'.peer i).contact.endpoint := by
    rintro hgeneration w₁ ⟨es₁, es₂, -, hrun₁, hrun₂⟩
    have hcontinues₁ := run_continues h hrun₁ i
    have hcontinues₂ := run_continues (hrun₁.reachable h) hrun₂ i
    obtain ⟨hle, hocc⟩ := (reachable_inOrder h).carries hcarries
    have hle₁ : w.pool.generation i ≤ w₁.pool.generation i := hcontinues₁.le
    have hle₂ : w₁.pool.generation i ≤ w'.pool.generation i := hcontinues₂.le
    have hsame₁ : w₁.pool.generation i = w.pool.generation i := by omega
    have hsame₂ : w'.pool.generation i = w₁.pool.generation i := by omega
    have hocc₁ := (hcontinues₁.same hsame₁ (hocc (by omega))).1
    exact ⟨hocc₁, ((hcontinues₂.same hsame₂ hocc₁).2).symm⟩
  refine ⟨fun ⟨w₁, hbetween, hfree⟩ => drain_stale hdrains (fun hgeneration => ?_) hstep, hkept⟩
  exact Bool.noConfusion (hfree.symm.trans (hkept hgeneration w₁ hbetween).1)

/-- The session of a connected peer has ended, and the update is in the queue. -/
def endedRun : List Event :=
  acceptRun 80 5 ++ handshakeRun firstSlot ++ [.setEndpoint, .endpointDisconnected 0 peerShutdown]

/-- The peer is replaced by a connection from its endpoint. -/
def emptied : World := (afterRun endedRun).after sampleInfoHash (fun _ _ => true) (acceptRun 80 6)

/-- Its slot is taken by another peer, and then the update is next. -/
def refillRun : List Event :=
  acceptRun 81 7 ++ [.notifyDisconnected, .runDaemon] ++ List.replicate 3 (.turn idleCalls)

def refilled : World := emptied.after sampleInfoHash (fun _ _ => true) refillRun

theorem emptied_run : (managerMachine sampleInfoHash).Run (afterRun endedRun) (acceptRun 80 6) emptied :=
  after_run (by decide +kernel)

theorem refilled_run : (managerMachine sampleInfoHash).Run emptied refillRun refilled :=
  after_run (by decide +kernel)

theorem stale_update_inert_refilled : refilled.pool.occupied 199 = true ∧
    (refilled.disconnectedTurn idleCalls.connect).pool = refilled.pool := by
  have hcontrol : refilled.control = .reconnecting := by decide +kernel
  have hdisconnects : refilled.disconnects = [⟨199, 0, peerShutdown⟩] := by decide +kernel
  have hturn : refilled.step sampleInfoHash (.turn idleCalls) =
      some (refilled.disconnectedTurn idleCalls.connect) := by
    rw [step, if_pos ⟨rfl, rfl⟩, turn, hcontrol]
  have hcarries : (afterRun endedRun).Carries 199 0 := Or.inr (by decide +kernel)
  have hdrains : refilled.Drains (.turn idleCalls) 199 0 :=
    ⟨idleCalls, rfl, Or.inr ⟨hcontrol, peerShutdown, [], hdisconnects⟩⟩
  exact ⟨by decide +kernel, ((stale_update_inert (afterRun_reachable _) hcarries hdrains hturn).1
    ⟨emptied, ⟨acceptRun 80 6, refillRun, rfl, emptied_run, refilled_run⟩, by decide +kernel⟩).1⟩

end World

end TorrentEngine
