import TorrentEngine.Library.Counting
import TorrentEngine.PeerReachable

/-! The stages of the slots and the counters, without the peers. A move shifts one slot from one stage to
another and changes the counters in a way that depends on the two stages alone, so what a counter is
worth can be told from the shifts. -/

open Transition

namespace TorrentEngine

inductive Stage where
  | free
  | attempting (source : Psource)
  | failed
  | waiting
  | connected
  deriving DecidableEq, Repr

/-- The stage of the peer in an occupied slot. -/
def PeerConnection.stage (p : PeerConnection) : Stage :=
  if p.state = .connected then .connected
  else if p.state = .failed then .failed
  else if p.forSock.active then .attempting p.source
  else .waiting

namespace PeerConnection

variable {p : PeerConnection}

theorem InFlight.stage (h : p.InFlight) : p.stage = .attempting p.source := by
  have hfailed : p.state ≠ .failed := by rcases h.state with hs | hs <;> rw [hs] <;> decide
  rw [PeerConnection.stage, if_neg h.state_ne, if_neg hfailed, if_pos h.sock]

theorem Failed.stage (h : p.Failed) : p.stage = .failed := by
  rw [PeerConnection.stage, h.state, if_neg (by decide), if_pos rfl]

theorem Waiting.stage (h : p.Waiting) : p.stage = .waiting := by
  rw [PeerConnection.stage, h.state, if_neg (by decide), if_neg (by decide), h.sock.1]
  rfl

theorem Connected.stage (h : p.Connected) : p.stage = .connected := by
  rw [PeerConnection.stage, if_pos h.state]

end PeerConnection

namespace Ledger

open PeerConnection

variable {v v' : Ledger} {i j x : ConnectionSlot} {m : Move} {infoHash : Vector Byte 20}

/-! ### The one slot that a move is about -/

def stage (v : Ledger) (i : ConnectionSlot) : Stage := if v.occupied i then (v.object i).stage else .free

theorem stage_of_occupied (h : v.occupied i = true) : v.stage i = (v.object i).stage := if_pos h

theorem stage_of_free (h : v.occupied i = false) : v.stage i = .free := by
  rw [stage, h]
  rfl

/-- Nothing changes in a slot. -/
structure SameSlot (v v' : Ledger) (j : ConnectionSlot) : Prop where
  object : v'.object j = v.object j
  occupied : v'.occupied j = v.occupied j
  generation : v'.generation j = v.generation j

namespace SameSlot

theorem refl (v : Ledger) (j : ConnectionSlot) : SameSlot v v j := ⟨rfl, rfl, rfl⟩

theorem set (v : Ledger) (p : PeerConnection) (hj : j ≠ i) : SameSlot v (v.set i p) j :=
  ⟨Function.update_of_ne hj _ _, rfl, rfl⟩

theorem vacate (v : Ledger) (p : PeerConnection) (hj : j ≠ i) : SameSlot v (v.vacate i p) j :=
  ⟨Function.update_of_ne hj _ _, Function.update_of_ne hj _ _, Function.update_of_ne hj _ _⟩

theorem occupy (v : Ledger) (p : PeerConnection) (hj : j ≠ x) : SameSlot v (v.occupy x p) j :=
  ⟨Function.update_of_ne hj _ _, Function.update_of_ne hj _ _, rfl⟩

/-- Queues, descriptors and counters do not matter. -/
theorem congr {v₁ : Ledger} (h : SameSlot v v₁ j) (hobject : v'.object = v₁.object)
    (hoccupied : v'.occupied = v₁.occupied) (hgeneration : v'.generation = v₁.generation) :
    SameSlot v v' j :=
  ⟨(congrFun hobject j).trans h.object, (congrFun hoccupied j).trans h.occupied,
    (congrFun hgeneration j).trans h.generation⟩

end SameSlot

/-- **Frame.** A move changes nothing in the slots that it is not about. -/
theorem Step.sameSlot (hstep : Step infoHash v m v') (hj : m.slot ≠ some j) : SameSlot v v' j := by
  have hne : ∀ i, m.slot = some i → j ≠ i := by
    rintro i hi rfl
    exact hj hi
  cases m with
  | quiet =>
      cases hstep
      exact SameSlot.refl v j
  | setEndpoint =>
      obtain ⟨u, us, -, rfl⟩ := hstep
      exact (SameSlot.refl v j).congr rfl rfl rfl
  | endSession =>
      obtain ⟨k, s, ds, -, -, rfl⟩ := hstep
      exact (SameSlot.refl v j).congr rfl rfl rfl
  | dropDisconnect =>
      obtain ⟨d, ds, -, -, rfl⟩ := hstep
      exact (SameSlot.refl v j).congr rfl rfl rfl
  | dropRetry =>
      obtain ⟨r, rs, -, -, rfl⟩ := hstep
      exact (SameSlot.refl v j).congr rfl rfl rfl
  | recycle i =>
      obtain ⟨-, p, n, -, -, -, rfl⟩ := hstep
      exact ⟨Function.update_of_ne (hne i rfl) _ _, rfl, Function.update_of_ne (hne i rfl) _ _⟩
  | discover i immediate =>
      obtain ⟨-, -, p, fd, -, -, -, rfl⟩ := hstep
      exact (SameSlot.occupy v p (hne i rfl)).congr rfl rfl rfl
  | retry i immediate =>
      obtain ⟨-, -, p, fd, rs, -, -, -, -, rfl⟩ := hstep
      exact (SameSlot.set v p (hne i rfl)).congr rfl rfl rfl
  | abandon i =>
      obtain ⟨-, -, p, rs, -, -, -, rfl⟩ := hstep
      exact (SameSlot.vacate v p (hne i rfl)).congr rfl rfl rfl
  | accept i =>
      obtain ⟨-, p, fd, -, -, -, rfl⟩ := hstep
      exact (SameSlot.occupy v p (hne i rfl)).congr rfl rfl rfl
  | replace i =>
      obtain ⟨-, p, -, ⟨-, -, rfl⟩ | ⟨-, -, rfl⟩⟩ := hstep
      · exact (SameSlot.vacate v p (hne i rfl)).congr rfl rfl rfl
      · exact (SameSlot.vacate v p (hne i rfl)).congr rfl rfl rfl
  | disconnect i =>
      obtain ⟨-, -, p, d, ds, -, -, -, -, -, rfl⟩ := hstep
      exact (SameSlot.vacate v p (hne i rfl)).congr rfl rfl rfl
  | progress i =>
      obtain ⟨-, -, p, kernel, -, -, -, rfl, -⟩ := hstep
      exact (SameSlot.set v p (hne i rfl)).congr rfl rfl rfl
  | fail i =>
      obtain ⟨-, -, -, p, -, -, rfl⟩ := hstep
      exact (SameSlot.set v p (hne i rfl)).congr rfl rfl rfl
  | discard i =>
      obtain ⟨-, -, p, -, -, rfl⟩ := hstep
      exact (SameSlot.vacate v p (hne i rfl)).congr rfl rfl rfl
  | dispatch i =>
      obtain ⟨-, -, p, kernel, cs, -, -, -, -, -, rfl⟩ := hstep
      exact (SameSlot.set v p (hne i rfl)).congr rfl rfl rfl
  | requeue i =>
      obtain ⟨-, -, p, -, -, rfl⟩ := hstep
      exact (SameSlot.set v p (hne i rfl)).congr rfl rfl rfl

theorem Step.sameSlot_of_ne (hstep : Step infoHash v m v') (hslot : m.slot = some i) (hj : j ≠ i) :
    SameSlot v v' j := by
  refine hstep.sameSlot ?_
  rw [hslot]
  exact fun heq => hj (Option.some.inj heq).symm

/-! ### Shifts -/

/-- A move takes a slot from one stage to another and changes the counters. -/
inductive Shift : Move → ConnectionSlot → Stage → Stage →
    (ConnectionStatistics → ConnectionStatistics) → Prop
  | recycle (x : ConnectionSlot) : Shift (.recycle x) x .free .free id
  | discover (x : ConnectionSlot) (immediate : Bool) :
      Shift (.discover x immediate) x .free (.attempting .tracker)
        ConnectionStatistics.incrementInboundInflight
  | retry (i : ConnectionSlot) (immediate : Bool) :
      Shift (.retry i immediate) i .waiting (.attempting .tracker)
        fun t => t.decrementPeersInRetry.incrementInboundInflight
  | abandon (i : ConnectionSlot) :
      Shift (.abandon i) i .waiting .free ConnectionStatistics.decrementPeersInRetry
  | accept (x : ConnectionSlot) :
      Shift (.accept x) x .free (.attempting .tcpServer)
        ConnectionStatistics.incrementOutboundInflight
  | replaceAttempting (i : ConnectionSlot) (source : Psource) : source ≠ .null →
      Shift (.replace i) i (.attempting source) .free fun t => t.singleResolved source
  | replaceFailed (i : ConnectionSlot) :
      Shift (.replace i) i .failed .free ConnectionStatistics.singleInboundResolved
  | replaceWaiting (i : ConnectionSlot) :
      Shift (.replace i) i .waiting .free ConnectionStatistics.singleInboundResolved
  | replaceConnected (i : ConnectionSlot) : Shift (.replace i) i .connected .free id
  | disconnect (i : ConnectionSlot) :
      Shift (.disconnect i) i .connected .free ConnectionStatistics.decrementConnectedBittorrentPeers
  | progress (i : ConnectionSlot) (source : Psource) :
      Shift (.progress i) i (.attempting source) (.attempting source) id
  | fail (i : ConnectionSlot) :
      Shift (.fail i) i (.attempting .tracker) .failed
        fun t => t.singleInboundResolved.incrementFailed
  | discard (i : ConnectionSlot) (source : Psource) : source ≠ .null →
      Shift (.discard i) i (.attempting source) .free fun t => t.singleResolved source
  | dispatch (i : ConnectionSlot) (source : Psource) : source ≠ .null →
      Shift (.dispatch i) i (.attempting source) .connected
        fun t => t.incrementConnectedBittorrentPeers.singleResolved source
  | requeue (i : ConnectionSlot) :
      Shift (.requeue i) i .failed .waiting fun t => t.decrementFailed.incrementPeersInRetry

/-- What a move does to the stages and the counters. -/
inductive Shifts (v : Ledger) (m : Move) (v' : Ledger) : Prop
  | none : m.slot = none → v'.stage = v.stage →
      v'.statistics = v.statistics ∨ v'.statistics = v.statistics.decrementPeersInRetry → Shifts v m v'
  | slot (i : ConnectionSlot) (s' : Stage) (f : ConnectionStatistics → ConnectionStatistics) :
      Shift m i (v.stage i) s' f → v'.stage = Function.update v.stage i s' →
      v'.statistics = f v.statistics → Shifts v m v'

theorem stage_congr (h : SameSlot v v' j) : v'.stage j = v.stage j := by
  rw [stage, stage, h.object, h.occupied]

theorem Step.stage_update (hstep : Step infoHash v m v') (hslot : m.slot = some i) {s' : Stage}
    (hi : v'.stage i = s') : v'.stage = Function.update v.stage i s' := by
  funext j
  by_cases hj : j = i
  · subst hj
    rw [Function.update_self, hi]
  · rw [Function.update_of_ne hj]
    exact stage_congr (hstep.sameSlot_of_ne hslot hj)

theorem Shift.slot_eq {s s' : Stage} {f : ConnectionStatistics → ConnectionStatistics}
    (h : Shift m i s s' f) : m.slot = some i := by
  cases h <;> rfl

theorem Shifts.of_shift {s s' : Stage} {f : ConnectionStatistics → ConnectionStatistics}
    (hstep : Step infoHash v m v') (h : Shift m i s s' f) (hs : v.stage i = s) (hs' : v'.stage i = s')
    (hstatistics : v'.statistics = f v.statistics) : Shifts v m v' := by
  subst hs
  exact .slot i s' f h (hstep.stage_update h.slot_eq hs') hstatistics

theorem stage_of_object {p : PeerConnection} (hi : v.occupied i = true) (hp : v.object i = p) :
    v.stage i = p.stage := by
  rw [stage_of_occupied hi, hp]

/-- **What a move does to the stages and the counters depends on the stage of its slot alone.** -/
theorem Step.shifts (hregistry : Registry v) (hstep : Step infoHash v m v') : Shifts v m v' := by
  have hcopy := hstep
  cases m with
  | quiet =>
      cases hstep
      exact .none rfl rfl (Or.inl rfl)
  | setEndpoint =>
      obtain ⟨u, us, -, rfl⟩ := hstep
      exact .none rfl rfl (Or.inl rfl)
  | endSession =>
      obtain ⟨k, s, ds, -, -, rfl⟩ := hstep
      exact .none rfl rfl (Or.inl rfl)
  | dropDisconnect =>
      obtain ⟨d, ds, -, -, rfl⟩ := hstep
      exact .none rfl rfl (Or.inl rfl)
  | dropRetry =>
      obtain ⟨r, rs, -, -, rfl⟩ := hstep
      exact .none rfl rfl (Or.inr rfl)
  | recycle i =>
      obtain ⟨hi, p, n, -, -, -, rfl⟩ := hstep
      exact .of_shift hcopy (.recycle i) (stage_of_free hi) (stage_of_free hi) rfl
  | discover i immediate =>
      obtain ⟨hi, -, p, fd, hp, -, -, rfl⟩ := hstep
      refine .of_shift hcopy (.discover i immediate) (stage_of_free hi) ?_ rfl
      rw [← hp.source, ← hp.inFlight.stage]
      exact stage_of_object (Function.update_self _ _ _) (Function.update_self _ _ _)
  | retry i immediate =>
      obtain ⟨hi, hwaiting, p, fd, rs, hp, -, -, -, rfl⟩ := hstep
      refine .of_shift hcopy (.retry i immediate) ((stage_of_occupied hi).trans hwaiting.stage) ?_ rfl
      rw [← hp.source, ← hp.inFlight.stage]
      exact stage_of_object hi (Function.update_self _ _ _)
  | abandon i =>
      obtain ⟨hi, hwaiting, p, rs, -, -, -, rfl⟩ := hstep
      exact .of_shift hcopy (.abandon i) ((stage_of_occupied hi).trans hwaiting.stage)
        (stage_of_free (Function.update_self _ _ _)) rfl
  | accept i =>
      obtain ⟨hi, p, fd, hp, -, -, rfl⟩ := hstep
      refine .of_shift hcopy (.accept i) (stage_of_free hi) ?_ rfl
      rw [← hp.source, ← hp.inFlight.stage]
      exact stage_of_object (Function.update_self _ _ _) (Function.update_self _ _ _)
  | replace i =>
      obtain ⟨hi, p, -, ⟨hstate, -, rfl⟩ | ⟨hstate, -, rfl⟩⟩ := hstep
      · have hfree : ((v.resolve i).vacate i p).stage i = .free :=
          stage_of_free (Function.update_self _ _ _)
        cases hregistry.registered.staged i hi with
        | inFlight h =>
            exact .of_shift hcopy (.replaceAttempting i (v.object i).source h.source)
              ((stage_of_occupied hi).trans h.stage) hfree rfl
        | failed h =>
            refine .of_shift hcopy (.replaceFailed i) ((stage_of_occupied hi).trans h.stage) hfree ?_
            show v.statistics.singleResolved (v.object i).source = _
            rw [h.source]
            rfl
        | waiting h =>
            refine .of_shift hcopy (.replaceWaiting i) ((stage_of_occupied hi).trans h.stage) hfree ?_
            show v.statistics.singleResolved (v.object i).source = _
            rw [h.source]
            rfl
        | connected h => exact absurd h.state hstate
      · exact .of_shift hcopy (.replaceConnected i)
          ((stage_of_occupied hi).trans (if_pos hstate)) (stage_of_free (Function.update_self _ _ _)) rfl
  | disconnect i =>
      obtain ⟨hi, hconnected, p, d, ds, -, -, -, -, -, rfl⟩ := hstep
      exact .of_shift hcopy (.disconnect i) ((stage_of_occupied hi).trans hconnected.stage)
        (stage_of_free (Function.update_self _ _ _)) rfl
  | progress i =>
      obtain ⟨hi, hflight, p, kernel, hp, hsame, -, rfl, -⟩ := hstep
      refine .of_shift hcopy (.progress i (v.object i).source)
        ((stage_of_occupied hi).trans hflight.stage) ?_ rfl
      rw [← hsame.source, ← hp.stage]
      exact stage_of_object hi (Function.update_self _ _ _)
  | fail i =>
      obtain ⟨hi, hflight, hsource, p, hp, -, rfl⟩ := hstep
      refine .of_shift hcopy (.fail i) ?_ ?_ rfl
      · rw [← hsource, ← hflight.stage]
        exact stage_of_occupied hi
      · rw [← hp.stage]
        exact stage_of_object hi (Function.update_self _ _ _)
  | discard i =>
      obtain ⟨hi, hflight, p, -, -, rfl⟩ := hstep
      exact .of_shift hcopy (.discard i (v.object i).source hflight.source)
        ((stage_of_occupied hi).trans hflight.stage) (stage_of_free (Function.update_self _ _ _)) rfl
  | dispatch i =>
      obtain ⟨hi, hflight, p, kernel, cs, hp, -, -, -, -, rfl⟩ := hstep
      refine .of_shift hcopy (.dispatch i (v.object i).source hflight.source)
        ((stage_of_occupied hi).trans hflight.stage) ?_ rfl
      rw [← hp.stage]
      exact stage_of_object hi (Function.update_self _ _ _)
  | requeue i =>
      obtain ⟨hi, hfailed, p, hp, -, rfl⟩ := hstep
      refine .of_shift hcopy (.requeue i) ((stage_of_occupied hi).trans hfailed.stage) ?_ rfl
      rw [← hp.stage]
      exact stage_of_object hi (Function.update_self _ _ _)

end Ledger

end TorrentEngine
