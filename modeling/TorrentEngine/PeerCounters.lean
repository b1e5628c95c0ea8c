import TorrentEngine.PeerStages

/-! What the counters of the manager are worth: how many slots are in the stages that each is about. -/

open Transition

namespace TorrentEngine

open PeerConnection

namespace Ledger

variable {v v' : Ledger} {i : ConnectionSlot} {m : Move} {infoHash : Vector Byte 20}

/-! ### Counters that go with stages -/

/-- How many slots are in these stages. -/
def number (v : Ledger) (p : Stage → Prop) [DecidablePred p] : Nat := Counting.count fun i => p (v.stage i)

section Tally

variable {p : Stage → Prop} [DecidablePred p] {c : ConnectionStatistics → Nat} {s s' : Stage}
  {f : ConnectionStatistics → ConnectionStatistics}

theorem number_le (v : Ledger) (p : Stage → Prop) [DecidablePred p] : v.number p ≤ 200 :=
  Counting.count_le_card _

/-- A shift changes a counter just as it changes the number of slots in some stages. -/
inductive Tallied (p : Stage → Prop) (c : ConnectionStatistics → Nat) (s s' : Stage)
    (f : ConnectionStatistics → ConnectionStatistics) : Prop
  | same : (p s ↔ p s') → (∀ t, c (f t) = c t) → Tallied p c s s' f
  | gain : ¬ p s → p s' → (∀ t, c (f t) = SizeT.inc (c t)) → Tallied p c s s' f
  | loss : p s → ¬ p s' → (∀ t, c (f t) = SizeT.dec (c t)) → Tallied p c s s' f

theorem off_update (p : Stage → Prop) (stage : ConnectionSlot → Stage) (i : ConnectionSlot) (s' : Stage)
    (j : ConnectionSlot) (hj : j ≠ i) : p (stage j) ↔ p (Function.update stage i s' j) := by
  rw [Function.update_of_ne hj]

theorem Tallied.keeps (h : Tallied p c (v.stage i) s' f) (hstage : v'.stage = Function.update v.stage i s')
    (hstatistics : v'.statistics = f v.statistics) (hv : c v.statistics = v.number p) :
    c v'.statistics = v'.number p := by
  have hle := v.number_le p
  have hoff := off_update p v.stage i s'
  have hself : Function.update v.stage i s' i = s' := Function.update_self _ _ _
  have hnumber : v'.number p = Counting.count fun j => p (Function.update v.stage i s' j) := by
    rw [number, hstage]
  cases h with
  | same hiff hc =>
      rw [hstatistics, hc, hv, hnumber]
      refine Counting.count_same hoff ?_
      rw [hself]
      exact hiff
  | gain hs hs' hc =>
      rw [hstatistics, hc, hv, hnumber, SizeT.inc_of_lt (by omega)]
      refine (Counting.count_gain hoff hs ?_).symm
      rw [hself]
      exact hs'
  | loss hs hs' hc =>
      have hloss : v.number p = v'.number p + 1 := by
        rw [hnumber]
        refine Counting.count_loss hoff hs ?_
        rw [hself]
        exact hs'
      rw [hstatistics, hc, hv, SizeT.dec_of_pos (by omega) (by omega)]
      omega

/-- A counter stays right over a move all of whose shifts it goes with. -/
theorem Shifts.tally (h : Shifts v m v')
    (hall : ∀ i s' f, Shift m i (v.stage i) s' f → Tallied p c (v.stage i) s' f)
    (hretry : ∀ t : ConnectionStatistics, c t.decrementPeersInRetry = c t)
    (hv : c v.statistics = v.number p) : c v'.statistics = v'.number p := by
  cases h with
  | none _ hstage hstatistics =>
      have hnumber : v'.number p = v.number p := by
        rw [number, number, hstage]
      rw [hnumber, ← hv]
      rcases hstatistics with hstatistics | hstatistics
      · rw [hstatistics]
      · rw [hstatistics, hretry]
  | slot i s' f hshift hstage hstatistics =>
      exact (hall i s' f hshift).keeps hstage hstatistics hv

theorem Shifts.number_le (h : Shifts v m v')
    (hback : ∀ i s' f, Shift m i (v.stage i) s' f → p s' → p (v.stage i)) :
    v'.number p ≤ v.number p := by
  refine Counting.count_le fun j hj => ?_
  cases h with
  | none _ hstage _ =>
      rw [← hstage]
      exact hj
  | slot i s' f hshift hstage _ =>
      rw [hstage] at hj
      by_cases hji : j = i
      · subst hji
        rw [Function.update_self] at hj
        exact hback j s' f hshift hj
      · rw [Function.update_of_ne hji] at hj
        exact hj

theorem Shifts.number_le_succ (h : Shifts v m v') (p : Stage → Prop) [DecidablePred p] :
    v'.number p ≤ v.number p + 1 := by
  cases h with
  | none _ hstage _ =>
      rw [number, number, hstage]
      exact Nat.le_succ _
  | slot i s' f _ hstage _ =>
      have hnumber : v'.number p = Counting.count fun j => p (Function.update v.stage i s' j) := by
        rw [number, hstage]
      have hself : Function.update v.stage i s' i = s' := Function.update_self _ _ _
      have hoff := off_update p v.stage i s'
      rw [hnumber, number]
      by_cases hgain : p s' ∧ ¬ p (v.stage i)
      · rw [Counting.count_gain hoff hgain.2 (by rw [hself]; exact hgain.1)]
      · refine Nat.le_succ_of_le (Counting.count_le fun j hj => ?_)
        by_cases hji : j = i
        · subst hji
          rw [hself] at hj
          exact not_not.mp fun hnot => hgain ⟨hj, hnot⟩
        · exact (hoff j hji).mpr hj

end Tally

section Shifts

variable {s s' : Stage} {f g : ConnectionStatistics → ConnectionStatistics}

/-! ### Attempts from the server -/

abbrev FromServer (s : Stage) : Prop := s = .attempting .tcpServer

/-- The end of an attempt, whatever its source. -/
theorem resolved_outbound (source : Psource) (hs' : ¬ FromServer s')
    (hg : ∀ t, (g t).outboundInflight = t.outboundInflight) :
    Tallied FromServer ConnectionStatistics.outboundInflight (.attempting source) s'
      fun t => (g t).singleResolved source := by
  have hsame : ∀ {source}, ¬ FromServer (.attempting source) →
      (FromServer (.attempting source) ↔ FromServer s') := fun h =>
    ⟨fun hsource => absurd hsource h, fun hsource => absurd hsource hs'⟩
  cases source with
  | null => exact .same (hsame (by decide)) hg
  | tracker => exact .same (hsame (by decide)) hg
  | tcpServer => exact .loss rfl hs' fun t => congrArg SizeT.dec (hg t)

theorem Shift.outbound (h : Shift m i s s' f) :
    Tallied FromServer ConnectionStatistics.outboundInflight s s' f := by
  cases h with
  | recycle => exact .same Iff.rfl fun _ => rfl
  | discover => exact .same (by decide) fun _ => rfl
  | retry => exact .same (by decide) fun _ => rfl
  | abandon => exact .same (by decide) fun _ => rfl
  | accept => exact .gain (by decide) rfl fun _ => rfl
  | replaceAttempting i source _ => exact resolved_outbound source (by decide) fun _ => rfl
  | replaceFailed => exact .same (by decide) fun _ => rfl
  | replaceWaiting => exact .same (by decide) fun _ => rfl
  | replaceConnected => exact .same (by decide) fun _ => rfl
  | disconnect => exact .same (by decide) fun _ => rfl
  | progress => exact .same Iff.rfl fun _ => rfl
  | fail => exact .same (by decide) fun _ => rfl
  | discard i source _ => exact resolved_outbound source (by decide) fun _ => rfl
  | dispatch i source _ => exact resolved_outbound source (by decide) fun _ => rfl
  | requeue => exact .same (by decide) fun _ => rfl

/-- Only an accepted connection is one more attempt from the server. -/
theorem Shift.fromServer (h : Shift m i s s' f) (hs' : FromServer s') :
    FromServer s ∨ m = .accept i := by
  cases h with
  | accept => exact Or.inr rfl
  | progress => exact Or.inl hs'
  | _ => cases hs'

/-! ### Attempts from the trackers -/

abbrev FromTracker (s : Stage) : Prop := s = .attempting .tracker

theorem resolved_inbound {source : Psource} (hsource : source ≠ .null) (hs' : ¬ FromTracker s')
    (hg : ∀ t, (g t).inboundInflight = t.inboundInflight) :
    Tallied FromTracker ConnectionStatistics.inboundInflight (.attempting source) s'
      fun t => (g t).singleResolved source := by
  cases source with
  | null => exact absurd rfl hsource
  | tracker => exact .loss rfl hs' fun t => congrArg SizeT.dec (hg t)
  | tcpServer => exact .same ⟨fun h => Stage.noConfusion h nofun, fun h => absurd h hs'⟩ hg

/-- It goes wrong only where a peer that attempts nothing is replaced. -/
theorem Shift.inbound (h : Shift m i s s' f) (hnot : m = .replace i → s ≠ .failed ∧ s ≠ .waiting) :
    Tallied FromTracker ConnectionStatistics.inboundInflight s s' f := by
  cases h with
  | recycle => exact .same Iff.rfl fun _ => rfl
  | discover => exact .gain (by decide) rfl fun _ => rfl
  | retry => exact .gain (by decide) rfl fun _ => rfl
  | abandon => exact .same (by decide) fun _ => rfl
  | accept => exact .same (by decide) fun _ => rfl
  | replaceAttempting i source hsource => exact resolved_inbound hsource (by decide) fun _ => rfl
  | replaceFailed => exact absurd rfl (hnot rfl).1
  | replaceWaiting => exact absurd rfl (hnot rfl).2
  | replaceConnected => exact .same (by decide) fun _ => rfl
  | disconnect => exact .same (by decide) fun _ => rfl
  | progress => exact .same Iff.rfl fun _ => rfl
  | fail => exact .loss rfl (by decide) fun _ => rfl
  | discard i source hsource => exact resolved_inbound hsource (by decide) fun _ => rfl
  | dispatch i source hsource => exact resolved_inbound hsource (by decide) fun _ => rfl
  | requeue => exact .same (by decide) fun _ => rfl

theorem Shift.fromTracker (h : Shift m i s s' f) (hs' : FromTracker s') :
    FromTracker s ∨ ∃ immediate, m = .discover i immediate ∨ m = .retry i immediate := by
  cases h with
  | discover i immediate => exact Or.inr ⟨immediate, Or.inl rfl⟩
  | retry i immediate => exact Or.inr ⟨immediate, Or.inr rfl⟩
  | progress => exact Or.inl hs'
  | _ => cases hs'

/-! ### Connected peers -/

abbrev IsConnected (s : Stage) : Prop := s = .connected

theorem connected_singleResolved (t : ConnectionStatistics) (source : Psource) :
    (t.singleResolved source).connectedBittorrentPeers = t.connectedBittorrentPeers := by
  unfold ConnectionStatistics.singleResolved
  split <;> rfl

/-- It goes wrong only where a connected peer is replaced. -/
theorem Shift.connected (h : Shift m i s s' f) (hnot : m = .replace i → s ≠ .connected) :
    Tallied IsConnected ConnectionStatistics.connectedBittorrentPeers s s' f := by
  cases h with
  | recycle => exact .same Iff.rfl fun _ => rfl
  | discover => exact .same (by decide) fun _ => rfl
  | retry => exact .same (by decide) fun _ => rfl
  | abandon => exact .same (by decide) fun _ => rfl
  | accept => exact .same (by decide) fun _ => rfl
  | replaceAttempting i source _ =>
      exact .same ⟨Stage.noConfusion, Stage.noConfusion⟩ fun t => connected_singleResolved t source
  | replaceFailed => exact .same (by decide) fun _ => rfl
  | replaceWaiting => exact .same (by decide) fun _ => rfl
  | replaceConnected => exact absurd rfl (hnot rfl)
  | disconnect => exact .loss rfl (by decide) fun _ => rfl
  | progress => exact .same Iff.rfl fun _ => rfl
  | fail => exact .same (by decide) fun _ => rfl
  | discard i source _ =>
      exact .same ⟨Stage.noConfusion, Stage.noConfusion⟩ fun t => connected_singleResolved t source
  | dispatch i source _ =>
      exact .gain Stage.noConfusion rfl fun t =>
        connected_singleResolved t.incrementConnectedBittorrentPeers source
  | requeue => exact .same (by decide) fun _ => rfl

end Shifts

end Ledger

namespace World

open Ledger

variable {w w' : World} {e : Event} {infoHash : Vector Byte 20}

/-! ### The counters of a state -/

theorem number_eq {p : Stage → Prop} [DecidablePred p] {q : ConnectionSlot → Prop} [DecidablePred q]
    (h : ∀ i, q i ↔ p (w.ledger.stage i)) : w.ledger.number p = Counting.count q :=
  (Counting.count_congr h).symm

theorem initial_number {p : Stage → Prop} [DecidablePred p] (hp : ¬ p .free) :
    World.initial.ledger.number p = 0 :=
  Counting.count_eq_zero fun _ => hp

theorem outbound_number (h : (managerMachine infoHash).Reachable w) :
    w.statistics.outboundInflight = w.ledger.number FromServer ∧ w.ledger.number FromServer ≤ 15 := by
  let I (v : Ledger) : Prop :=
    v.statistics.outboundInflight = v.number FromServer ∧ v.number FromServer ≤ 15
  have hcount : ∀ {v m v'}, Registry v → Step infoHash v m v' →
      v.statistics.outboundInflight = v.number FromServer →
        v'.statistics.outboundInflight = v'.number FromServer := fun hregistry hm hv =>
    (hm.shifts hregistry).tally (fun _ _ _ hshift => hshift.outbound) (fun _ => rfl) hv
  have hother : ∀ {v m v'}, Registry v → Step infoHash v m v' → (∀ x, m ≠ .accept x) →
      v'.number FromServer ≤ v.number FromServer := fun hregistry hm hnot =>
    (hm.shifts hregistry).number_le fun i s' f hshift hs' =>
      (hshift.fromServer hs').resolve_right (hnot i)
  refine ledger_invariant I ⟨?_, ?_⟩ ?_ ?_ h
  · rw [initial_number (by decide)]
    rfl
  · rw [initial_number (by decide)]
    exact Nat.zero_le _
  · intro w e m v' hreachable hI _ hcauses hm
    have horder := reachable_inOrder hreachable
    refine ⟨hcount horder.registry hm hI.1, ?_⟩
    by_cases haccept : ∃ x, m = .accept x
    · obtain ⟨x, rfl⟩ := haccept
      obtain ⟨-, -, -, -, hroom⟩ := hcauses
      have hle := (hm.shifts horder.registry).number_le_succ FromServer
      have hstat : w.statistics.outboundInflight = w.ledger.number FromServer := hI.1
      omega
    · exact (hother horder.registry hm fun x hx => haccept ⟨x, hx⟩).trans hI.2
  · intro w e i x v v' hreachable hI _ hreplaces hreplace hregistry haccept
    have horder := reachable_inOrder hreachable
    obtain ⟨-, -, -, -, -, -, hroom, -⟩ := hreplaces
    have hstat : w.statistics.outboundInflight = w.ledger.number FromServer := hI.1
    have hless := hother horder.registry hreplace fun x => Move.noConfusion
    have hle := (haccept.shifts hregistry).number_le_succ FromServer
    exact ⟨hcount hregistry haccept (hcount horder.registry hreplace hI.1), by omega⟩

theorem InOrder.staged (h : w.InOrder) {i : ConnectionSlot} (hi : w.pool.occupied i = true) :
    (w.peer i).Staged := h.registry.registered.staged i hi

theorem InOrder.fromServer_iff (h : w.InOrder) (i : ConnectionSlot) :
    (w.pool.occupied i = true ∧ (w.peer i).source = .tcpServer ∧ (w.peer i).state ≠ .connected) ↔
      FromServer (w.ledger.stage i) := by
  refine ⟨fun ⟨hi, hsource, hstate⟩ => ?_, fun hstage => ?_⟩
  · rw [FromServer, show w.ledger.stage i = _ from if_pos hi]
    cases h.staged hi with
    | inFlight hp => exact hp.stage.trans (congrArg Stage.attempting hsource)
    | failed hp => exact Psource.noConfusion (hp.source.symm.trans hsource)
    | waiting hp => exact Psource.noConfusion (hp.source.symm.trans hsource)
    | connected hp => exact absurd hp.state hstate
  · cases hi : w.pool.occupied i with
    | false => exact Stage.noConfusion ((stage_of_free hi).symm.trans hstage)
    | true =>
        have hpeer : (w.peer i).stage = .attempting .tcpServer := (stage_of_occupied hi).symm.trans hstage
        refine ⟨rfl, ?_, fun hstate => ?_⟩
        · cases h.staged hi with
          | inFlight hp => exact Stage.attempting.inj (hp.stage.symm.trans hpeer)
          | failed hp => exact Stage.noConfusion (hp.stage.symm.trans hpeer)
          | waiting hp => exact Stage.noConfusion (hp.stage.symm.trans hpeer)
          | connected hp => exact Stage.noConfusion (hp.stage.symm.trans hpeer)
        · rw [PeerConnection.stage, if_pos hstate] at hpeer
          exact Stage.noConfusion hpeer

/-- **The counter of incoming attempts.** It is the number of peers from the server that are managed and
not yet connected, so it never wraps and never exceeds its limit. -/
theorem outboundInflight_eq (h : (managerMachine infoHash).Reachable w) :
    w.statistics.outboundInflight = Counting.count (fun i => w.pool.occupied i = true ∧
        (w.peer i).source = .tcpServer ∧ (w.peer i).state ≠ .connected) ∧
      w.statistics.outboundInflight ≤ 15 := by
  obtain ⟨hcount, hle⟩ := outbound_number h
  have hnumber := number_eq (reachable_inOrder h).fromServer_iff
  refine ⟨hcount.trans hnumber, ?_⟩
  rw [hcount]
  exact hle

theorem outboundInflight_eq_sample : Counting.count (fun i => sampleWorld.pool.occupied i = true ∧
    (sampleWorld.peer i).source = .tcpServer ∧ (sampleWorld.peer i).state ≠ .connected) = 1 :=
  (outboundInflight_eq sampleWorld_reachable).1.symm.trans (by decide +kernel)

/-! ### Connected peers -/

theorem InOrder.isConnected_iff (h : w.InOrder) (i : ConnectionSlot) :
    (w.pool.occupied i = true ∧ (w.peer i).state = .connected) ↔ IsConnected (w.ledger.stage i) := by
  refine ⟨fun ⟨hi, hstate⟩ => (stage_of_occupied hi).trans (if_pos hstate), fun hstage => ?_⟩
  cases hi : w.pool.occupied i with
  | false => exact Stage.noConfusion ((stage_of_free hi).symm.trans hstage)
  | true =>
      have hpeer : (w.peer i).stage = .connected := (stage_of_occupied hi).symm.trans hstage
      refine ⟨rfl, ?_⟩
      cases h.staged hi with
      | inFlight hp => exact Stage.noConfusion (hp.stage.symm.trans hpeer)
      | failed hp => exact Stage.noConfusion (hp.stage.symm.trans hpeer)
      | waiting hp => exact Stage.noConfusion (hp.stage.symm.trans hpeer)
      | connected hp => exact hp.state

/-- No connected peer makes way for an accepted connection. -/
def KeepsConnected (w : World) (e : Event) : Prop := ∀ i, w.Replaces e i → (w.peer i).state ≠ .connected

theorem connected_number (h : (managerMachine infoHash).ReachableBy KeepsConnected w) :
    w.statistics.connectedBittorrentPeers = w.ledger.number IsConnected := by
  let I (v : Ledger) : Prop := v.statistics.connectedBittorrentPeers = v.number IsConnected
  have hkeeps : ∀ {v m v'}, Registry v → Step infoHash v m v' →
      (∀ i, m = .replace i → ¬ IsConnected (v.stage i)) → I v → I v' := fun hregistry hm hnot hv =>
    (hm.shifts hregistry).tally (fun i _ _ hshift => hshift.connected (hnot i)) (fun _ => rfl) hv
  refine ledger_invariant I ?_ ?_ ?_ h
  · exact (initial_number (by decide)).symm
  · intro w e m v' hreachable hI _ hcauses hm
    have horder := reachable_inOrder hreachable
    refine hkeeps horder.registry hm ?_ hI
    rintro i rfl
    exact absurd hcauses not_false
  · intro w e i x v v' hreachable hI hgood hreplaces hreplace hregistry haccept
    have horder := reachable_inOrder hreachable
    refine hkeeps hregistry haccept (fun _ => Move.noConfusion) (hkeeps horder.registry hreplace ?_ hI)
    rintro _ ⟨⟩ hstage
    exact hgood i hreplaces ((horder.isConnected_iff i).mpr hstage).2

/-- **The counter of connected peers.** It is right as long as no connected peer is replaced. -/
theorem connectedBittorrentPeers_eq (h : (managerMachine infoHash).ReachableBy KeepsConnected w) :
    w.statistics.connectedBittorrentPeers =
      Counting.count fun i => w.pool.occupied i = true ∧ (w.peer i).state = .connected :=
  (connected_number h).trans (number_eq (reachable_inOrder h.reachable).isConnected_iff)

theorem connectedBittorrentPeers_eq_crossed : crossedWorld.pool.generation 198 = 1 ∧ Counting.count (fun i =>
    crossedWorld.pool.occupied i = true ∧ (crossedWorld.peer i).state = .connected) = 1 := by
  have hkeeps : (managerMachine sampleInfoHash).ReachableBy KeepsConnected crossedWorld :=
    crossedWorld_reachableBy.mono fun _ _ hallowed _ hreplaces => (replacesInFlight_spec hallowed hreplaces).1
  exact ⟨crossedWorld_replaced.1, (connectedBittorrentPeers_eq hkeeps).symm.trans (by decide +kernel)⟩

/-- A replaced peer is counted for ever. -/
theorem connectedBittorrentPeers_ne : (managerMachine sampleInfoHash).Reachable (afterRun replacedRun) ∧
    (afterRun replacedRun).statistics.connectedBittorrentPeers = 1 ∧
      Counting.count (fun i => (afterRun replacedRun).pool.occupied i = true ∧
        ((afterRun replacedRun).peer i).state = .connected) = 0 :=
  ⟨afterRun_reachable _, by decide +kernel, by decide +kernel⟩

/-! ### Attempts from the trackers -/

theorem InOrder.fromTracker_iff (h : w.InOrder) (i : ConnectionSlot) :
    (w.pool.occupied i = true ∧ (w.peer i).source = .tracker ∧ (w.peer i).forSock.active = true ∧
        (w.peer i).forTimer.active = true) ↔ FromTracker (w.ledger.stage i) := by
  refine ⟨fun ⟨hi, hsource, hsock, htimer⟩ => ?_, fun hstage => ?_⟩
  · have hflight := (h.staged hi).inFlight_of_sock fun hstopped =>
      Bool.noConfusion (hsock.symm.trans hstopped.1)
    exact (stage_of_occupied hi).trans (hflight.stage.trans (congrArg Stage.attempting hsource))
  · cases hi : w.pool.occupied i with
    | false => exact Stage.noConfusion ((stage_of_free hi).symm.trans hstage)
    | true =>
        have hpeer : (w.peer i).stage = .attempting .tracker := (stage_of_occupied hi).symm.trans hstage
        cases h.staged hi with
        | inFlight hp =>
            exact ⟨rfl, Stage.attempting.inj (hp.stage.symm.trans hpeer), hp.sock, hp.timer⟩
        | failed hp => exact Stage.noConfusion (hp.stage.symm.trans hpeer)
        | waiting hp => exact Stage.noConfusion (hp.stage.symm.trans hpeer)
        | connected hp => exact Stage.noConfusion (hp.stage.symm.trans hpeer)

/-- No peer that has failed or waits for its retry makes way for an accepted connection. -/
def KeepsRetries (w : World) (e : Event) : Prop :=
  ∀ i, w.Replaces e i → (w.peer i).state ≠ .failed ∧
    ((w.peer i).state = .transport → (w.peer i).tcp.socket ≠ none)

theorem KeepsRetries.stage (h : w.InOrder) {i : ConnectionSlot} (hstate : (w.peer i).state ≠ .failed)
    (hsocket : (w.peer i).state = .transport → (w.peer i).tcp.socket ≠ none) :
    w.ledger.stage i ≠ .failed ∧ w.ledger.stage i ≠ .waiting := by
  cases hi : w.pool.occupied i with
  | false =>
      rw [show w.ledger.stage i = .free from stage_of_free hi]
      exact ⟨Stage.noConfusion, Stage.noConfusion⟩
  | true =>
      rw [show w.ledger.stage i = (w.peer i).stage from stage_of_occupied hi]
      cases h.staged hi with
      | inFlight hp =>
          rw [hp.stage]
          exact ⟨Stage.noConfusion, Stage.noConfusion⟩
      | failed hp => exact absurd hp.state hstate
      | waiting hp => exact absurd hp.socket (hsocket hp.state)
      | connected hp =>
          rw [hp.stage]
          exact ⟨Stage.noConfusion, Stage.noConfusion⟩

theorem inbound_number (h : (managerMachine infoHash).ReachableBy KeepsRetries w) :
    w.statistics.inboundInflight = w.ledger.number FromTracker ∧ w.ledger.number FromTracker ≤ 35 := by
  let I (v : Ledger) : Prop :=
    v.statistics.inboundInflight = v.number FromTracker ∧ v.number FromTracker ≤ 35
  have hcount : ∀ {v m v'}, Registry v → Step infoHash v m v' →
      (∀ i, m = .replace i → v.stage i ≠ .failed ∧ v.stage i ≠ .waiting) →
        v.statistics.inboundInflight = v.number FromTracker →
          v'.statistics.inboundInflight = v'.number FromTracker := fun hregistry hm hnot hv =>
    (hm.shifts hregistry).tally (fun i _ _ hshift => hshift.inbound (hnot i)) (fun _ => rfl) hv
  have hother : ∀ {v m v'}, Registry v → Step infoHash v m v' →
      (∀ i immediate, m ≠ .discover i immediate ∧ m ≠ .retry i immediate) →
        v'.number FromTracker ≤ v.number FromTracker := by
    intro v m v' hregistry hm hnot
    refine (hm.shifts hregistry).number_le fun i s' f hshift hs' => ?_
    refine (hshift.fromTracker hs').resolve_right ?_
    rintro ⟨immediate, hm | hm⟩
    · exact (hnot i immediate).1 hm
    · exact (hnot i immediate).2 hm
  refine ledger_invariant I ⟨?_, ?_⟩ ?_ ?_ h
  · exact (initial_number (by decide)).symm
  · rw [initial_number (by decide)]
    exact Nat.zero_le _
  · intro w e m v' hreachable hI _ hcauses hm
    have horder := reachable_inOrder hreachable
    refine ⟨hcount horder.registry hm ?_ hI.1, ?_⟩
    · rintro i rfl
      exact absurd hcauses not_false
    · have hle := (hm.shifts horder.registry).number_le_succ FromTracker
      have hstat : w.statistics.inboundInflight = w.ledger.number FromTracker := hI.1
      have hbound : w.ledger.number FromTracker ≤ 35 := hI.2
      by_cases hnot : ∀ i immediate, m ≠ .discover i immediate ∧ m ≠ .retry i immediate
      · exact (hother horder.registry hm hnot).trans hbound
      · have hroom : w.statistics.inboundInflight < 35 := by
          cases m with
          | discover i immediate => exact hcauses.1
          | retry i immediate => exact hcauses.1
          | _ => exact absurd (fun _ _ => ⟨Move.noConfusion, Move.noConfusion⟩) hnot
        omega
  · intro w e i x v v' hreachable hI hgood hreplaces hreplace hregistry haccept
    have horder := reachable_inOrder hreachable
    obtain ⟨hstate, hsocket⟩ := hgood i hreplaces
    have hfirst := hcount horder.registry hreplace
      (by rintro _ ⟨⟩; exact KeepsRetries.stage horder hstate hsocket) hI.1
    refine ⟨hcount hregistry haccept (fun _ => Move.noConfusion) hfirst, ?_⟩
    have hless := hother horder.registry hreplace fun _ _ => ⟨Move.noConfusion, Move.noConfusion⟩
    exact (hother hregistry haccept fun _ _ => ⟨Move.noConfusion, Move.noConfusion⟩).trans
      (hless.trans hI.2)

/-- **The counter of outgoing attempts.** It is right as long as no peer that has failed or waits for its
retry is replaced, and then it never wraps and never exceeds its limit. -/
theorem inboundInflight_eq (h : (managerMachine infoHash).ReachableBy KeepsRetries w) :
    w.statistics.inboundInflight = Counting.count (fun i => w.pool.occupied i = true ∧
        (w.peer i).source = .tracker ∧ (w.peer i).forSock.active = true ∧
        (w.peer i).forTimer.active = true) ∧
      w.statistics.inboundInflight ≤ 35 := by
  obtain ⟨hcount, hle⟩ := inbound_number h
  refine ⟨hcount.trans (number_eq (reachable_inOrder h.reachable).fromTracker_iff), ?_⟩
  rw [hcount]
  exact hle

theorem inboundInflight_eq_crossed : crossedWorld.pool.generation 198 = 1 ∧
    Counting.count (fun i => crossedWorld.pool.occupied i = true ∧ (crossedWorld.peer i).source = .tracker ∧
      (crossedWorld.peer i).forSock.active = true ∧ (crossedWorld.peer i).forTimer.active = true) = 1 := by
  have hkeeps : (managerMachine sampleInfoHash).ReachableBy KeepsRetries crossedWorld :=
    crossedWorld_reachableBy.mono fun _ _ hallowed _ hreplaces =>
      ⟨(replacesInFlight_spec hallowed hreplaces).2.1, fun _ => (replacesInFlight_spec hallowed hreplaces).2.2⟩
  exact ⟨crossedWorld_replaced.1, (inboundInflight_eq hkeeps).1.symm.trans (by decide +kernel)⟩

/-- The attempt fails, and a connection from its endpoint is accepted before the retry. -/
def failedRun : List Event :=
  connectRun 80 5 .inprogress ++
    [.socketReady firstSlot (.io .write) ⟨.error 111, .failed eagain, .failed eagain⟩] ++ acceptRun 80 5

/-- The attempt of the replaced peer is counted as ended twice. -/
theorem inboundInflight_wraps : (managerMachine sampleInfoHash).Reachable (afterRun failedRun) ∧
    (afterRun failedRun).statistics.inboundInflight = 2 ^ 64 - 1 ∧
      Counting.count (fun i => (afterRun failedRun).pool.occupied i = true ∧
        ((afterRun failedRun).peer i).source = .tracker ∧
          ((afterRun failedRun).peer i).forSock.active = true ∧
            ((afterRun failedRun).peer i).forTimer.active = true) = 0 :=
  ⟨afterRun_reachable _, by decide +kernel, by decide +kernel⟩

end World

end TorrentEngine
