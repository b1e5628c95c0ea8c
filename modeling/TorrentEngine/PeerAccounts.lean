import TorrentEngine.Library.Conservation
import TorrentEngine.PeerCounters

/-! What the counters are worth in every run, whoever is replaced in it. A peer that makes way for an accepted
connection is counted off as an attempt that has ended, or is not counted off at all, so each such peer leaves one or
two counters off by one, and nothing sets them right again. -/

open Transition

namespace TorrentEngine

open PeerConnection

namespace Ledger

variable {v v' : Ledger} {i : ConnectionSlot} {m : Move} {infoHash : Vector Byte 20} {s s' : Stage}
  {f : ConnectionStatistics → ConnectionStatistics}

section Account

variable {p : Stage → Prop} [DecidablePred p] {c : ConnectionStatistics → Nat} {kept doubled : Stage → Bool}
  {gone : List Stage}

/-! ### The number of slots after a shift -/

theorem number_same (hstage : v'.stage = Function.update v.stage i s') (h : p (v.stage i) ↔ p s') :
    v'.number p = v.number p := by
  rw [number, number, hstage]
  refine (Counting.count_same (off_update p v.stage i s') ?_).symm
  rw [Function.update_self]
  exact h

theorem number_gain (hstage : v'.stage = Function.update v.stage i s') (hs : ¬ p (v.stage i)) (hs' : p s') :
    v'.number p = v.number p + 1 := by
  rw [number, number, hstage]
  refine Counting.count_gain (off_update p v.stage i s') hs ?_
  rw [Function.update_self]
  exact hs'

theorem number_loss (hstage : v'.stage = Function.update v.stage i s') (hs : p (v.stage i)) (hs' : ¬ p s') :
    v.number p = v'.number p + 1 := by
  rw [number, number, hstage]
  refine Counting.count_loss (off_update p v.stage i s') hs ?_
  rw [Function.update_self]
  exact hs'

/-! ### Accounts -/

/-- The counter is the number of slots in its stages, but for the replaced peers that stay counted and for those that
were counted off once more. -/
structure Accounted (p : Stage → Prop) [DecidablePred p] (c : ConnectionStatistics → Nat) (kept doubled : Stage → Bool)
    (gone : List Stage) (v : Ledger) : Prop where
  lt : c v.statistics < 2 ^ 64
  balance : (c v.statistics + gone.countP doubled) % 2 ^ 64 = (v.number p + gone.countP kept) % 2 ^ 64

/-- What the replacement of a peer does to a counter. -/
inductive Drifts (p : Stage → Prop) [DecidablePred p] (c : ConnectionStatistics → Nat) (kept doubled : Stage → Bool)
    (s s' : Stage) (f : ConnectionStatistics → ConnectionStatistics) : Prop
  | tallied : kept s = false → doubled s = false → Tallied p c s s' f → Drifts p c kept doubled s s' f
  | stays : kept s = true → doubled s = false → p s → ¬ p s' → (∀ t, c (f t) = c t) →
      Drifts p c kept doubled s s' f
  | twice : kept s = false → doubled s = true → (p s ↔ p s') → (∀ t, c (f t) = SizeT.dec (c t)) →
      Drifts p c kept doubled s s' f

theorem Accounted.shift (hv : Accounted p c kept doubled gone v) (h : Tallied p c (v.stage i) s' f)
    (hstage : v'.stage = Function.update v.stage i s') (hstatistics : v'.statistics = f v.statistics) :
    Accounted p c kept doubled gone v' := by
  obtain ⟨hlt, hbalance⟩ := hv
  cases h with
  | same hiff hc =>
      rw [← hc, ← hstatistics] at hlt hbalance
      rw [← number_same hstage hiff] at hbalance
      exact ⟨hlt, hbalance⟩
  | gain hs hs' hc =>
      have hnumber := number_gain hstage hs hs'
      have hcount : c v'.statistics = (c v.statistics + 1) % 2 ^ 64 := by rw [hstatistics, hc, SizeT.inc]
      exact ⟨by omega, by omega⟩
  | loss hs hs' hc =>
      have hnumber := number_loss hstage hs hs'
      have hcount : c v'.statistics = (2 ^ 64 - 1 + c v.statistics) % 2 ^ 64 := by rw [hstatistics, hc, SizeT.dec]
      exact ⟨by omega, by omega⟩

theorem countP_snoc_of_pos {stages : List Stage} {q : Stage → Bool} (h : q s = true) :
    (stages ++ [s]).countP q = stages.countP q + 1 := by
  rw [List.countP_append, List.countP_singleton, if_pos h]

theorem countP_snoc_of_neg {stages : List Stage} {q : Stage → Bool} (h : q s = false) :
    (stages ++ [s]).countP q = stages.countP q := by
  rw [List.countP_append, List.countP_singleton, if_neg (Bool.eq_false_iff.mp h), Nat.add_zero]

theorem Accounted.replaced (hv : Accounted p c kept doubled gone v) (h : Drifts p c kept doubled (v.stage i) s' f)
    (hstage : v'.stage = Function.update v.stage i s') (hstatistics : v'.statistics = f v.statistics) :
    Accounted p c kept doubled (gone ++ [v.stage i]) v' := by
  cases h with
  | tallied hkept hdoubled htallied =>
      obtain ⟨hlt, hbalance⟩ := hv.shift htallied hstage hstatistics
      refine ⟨hlt, ?_⟩
      rw [countP_snoc_of_neg hkept, countP_snoc_of_neg hdoubled]
      exact hbalance
  | stays hkept hdoubled hs hs' hc =>
      obtain ⟨hlt, hbalance⟩ := hv
      have hnumber := number_loss hstage hs hs'
      rw [← hc, ← hstatistics] at hlt hbalance
      refine ⟨hlt, ?_⟩
      rw [countP_snoc_of_pos hkept, countP_snoc_of_neg hdoubled]
      omega
  | twice hkept hdoubled hiff hc =>
      obtain ⟨hlt, hbalance⟩ := hv
      have hnumber := number_same hstage hiff
      have hcount : c v'.statistics = (2 ^ 64 - 1 + c v.statistics) % 2 ^ 64 := by rw [hstatistics, hc, SizeT.dec]
      refine ⟨by omega, ?_⟩
      rw [countP_snoc_of_neg hkept, countP_snoc_of_pos hdoubled]
      omega

/-- How a counter goes with the moves. -/
structure Kept (p : Stage → Prop) [DecidablePred p] (c : ConnectionStatistics → Nat) (kept doubled : Stage → Bool) :
    Prop where
  other : ∀ {m i s s' f}, Shift m i s s' f → (∀ j, m ≠ .replace j) → Tallied p c s s' f
  replace : ∀ {i s s' f}, Shift (.replace i) i s s' f → Drifts p c kept doubled s s' f
  retry : ∀ t : ConnectionStatistics, c t.decrementPeersInRetry = c t

theorem Kept.shifts (h : Kept p c kept doubled) (hm : Shifts v m v') (hnot : ∀ j, m ≠ .replace j)
    (hv : Accounted p c kept doubled gone v) : Accounted p c kept doubled gone v' := by
  cases hm with
  | none _ hstage hstatistics =>
      obtain ⟨hlt, hbalance⟩ := hv
      have hnumber : v'.number p = v.number p := by rw [number, number, hstage]
      have hsame : c v'.statistics = c v.statistics := by
        rcases hstatistics with hstatistics | hstatistics
        · rw [hstatistics]
        · rw [hstatistics, h.retry]
      rw [← hsame] at hlt hbalance
      rw [← hnumber] at hbalance
      exact ⟨hlt, hbalance⟩
  | slot i s' f hshift hstage hstatistics => exact hv.shift (h.other hshift hnot) hstage hstatistics

theorem Kept.replaces (h : Kept p c kept doubled) (hm : Shifts v (.replace i) v')
    (hv : Accounted p c kept doubled gone v) : Accounted p c kept doubled (gone ++ [v.stage i]) v' := by
  cases hm with
  | none hslot => cases hslot
  | slot j s' f hshift hstage hstatistics =>
      cases hshift.slot_eq
      exact hv.replaced (h.replace hshift) hstage hstatistics

end Account

/-! ### Three counters -/

def never : Stage → Bool := fun _ => false

/-- A peer that attempts nothing, and is not connected. -/
def idle (s : Stage) : Bool := s == .failed || s == .waiting

abbrev HasFailed (s : Stage) : Prop := s = .failed

theorem failedPeers_singleResolved (t : ConnectionStatistics) (source : Psource) :
    (t.singleResolved source).failedPeers = t.failedPeers := by
  unfold ConnectionStatistics.singleResolved
  split <;> rfl

theorem peersInRetry_singleResolved (t : ConnectionStatistics) (source : Psource) :
    (t.singleResolved source).peersInRetry = t.peersInRetry := by
  unfold ConnectionStatistics.singleResolved
  split <;> rfl

theorem Shift.hasFailed (h : Shift m i s s' f) (hnot : ∀ j, m ≠ .replace j) :
    Tallied HasFailed ConnectionStatistics.failedPeers s s' f := by
  cases h with
  | recycle => exact .same Iff.rfl fun _ => rfl
  | discover => exact .same (by decide) fun _ => rfl
  | retry => exact .same (by decide) fun _ => rfl
  | abandon => exact .same (by decide) fun _ => rfl
  | accept => exact .same (by decide) fun _ => rfl
  | replaceAttempting => exact absurd rfl (hnot _)
  | replaceFailed => exact absurd rfl (hnot _)
  | replaceWaiting => exact absurd rfl (hnot _)
  | replaceConnected => exact absurd rfl (hnot _)
  | disconnect => exact .same (by decide) fun _ => rfl
  | progress => exact .same Iff.rfl fun _ => rfl
  | fail => exact .gain (by decide) rfl fun _ => rfl
  | discard i source _ =>
      exact .same ⟨Stage.noConfusion, Stage.noConfusion⟩ fun t => failedPeers_singleResolved t source
  | dispatch i source _ =>
      exact .same ⟨Stage.noConfusion, Stage.noConfusion⟩ fun t =>
        failedPeers_singleResolved t.incrementConnectedBittorrentPeers source
  | requeue => exact .loss rfl (by decide) fun _ => rfl

/-- A connected peer that is replaced stays counted. -/
theorem connected_kept :
    Kept IsConnected ConnectionStatistics.connectedBittorrentPeers (· == .connected) never where
  other hshift hnot := hshift.connected fun heq => absurd heq (hnot _)
  replace hshift := by
    have hcopy := hshift
    cases hshift with
    | replaceAttempting => exact .tallied rfl rfl (hcopy.connected fun _ => Stage.noConfusion)
    | replaceFailed => exact .tallied rfl rfl (hcopy.connected fun _ => Stage.noConfusion)
    | replaceWaiting => exact .tallied rfl rfl (hcopy.connected fun _ => Stage.noConfusion)
    | replaceConnected => exact .stays rfl rfl rfl (by decide) fun _ => rfl
  retry _ := rfl

/-- And so does one that has failed. -/
theorem failed_kept : Kept HasFailed ConnectionStatistics.failedPeers (· == .failed) never where
  other := Shift.hasFailed
  replace hshift := by
    cases hshift with
    | replaceAttempting i source _ =>
        exact .tallied rfl rfl (.same ⟨Stage.noConfusion, Stage.noConfusion⟩ fun t =>
          failedPeers_singleResolved t source)
    | replaceFailed => exact .stays rfl rfl rfl (by decide) fun _ => rfl
    | replaceWaiting => exact .tallied rfl rfl (.same (by decide) fun _ => rfl)
    | replaceConnected => exact .tallied rfl rfl (.same (by decide) fun _ => rfl)
  retry _ := rfl

/-- The attempt of an idle peer has ended before, and is counted off once more when the peer is replaced. -/
theorem inbound_kept : Kept FromTracker ConnectionStatistics.inboundInflight never idle where
  other hshift hnot := hshift.inbound fun heq => absurd heq (hnot _)
  replace hshift := by
    have hcopy := hshift
    cases hshift with
    | replaceAttempting =>
        exact .tallied rfl rfl (hcopy.inbound fun _ => ⟨Stage.noConfusion, Stage.noConfusion⟩)
    | replaceFailed => exact .twice rfl rfl (by decide) fun _ => rfl
    | replaceWaiting => exact .twice rfl rfl (by decide) fun _ => rfl
    | replaceConnected =>
        exact .tallied rfl rfl (hcopy.inbound fun _ => ⟨Stage.noConfusion, Stage.noConfusion⟩)
  retry _ := rfl

/-! ### The retry queue -/

/-- The counter of the retry queue, entries for peers that are gone included. -/
def RetriesCounted (v : Ledger) : Prop := v.statistics.peersInRetry = v.retryQueue.length % 2 ^ 64

/-- A peer is taken from the queue. -/
theorem RetriesCounted.pop (h : RetriesCounted v) {r : PeerFailureUpdate} (hqueue : v.retryQueue = r :: v'.retryQueue)
    (hcount : v'.statistics.peersInRetry = SizeT.dec v.statistics.peersInRetry) : RetriesCounted v' := by
  rw [RetriesCounted, hqueue, List.length_cons] at h
  rw [RetriesCounted, hcount, h, SizeT.dec]
  omega

theorem Step.retriesCounted (hstep : Step infoHash v m v') (h : RetriesCounted v) : RetriesCounted v' := by
  cases m with
  | quiet =>
      cases hstep
      exact h
  | setEndpoint =>
      obtain ⟨u, us, -, rfl⟩ := hstep
      exact h
  | endSession =>
      obtain ⟨k, s, ds, -, -, rfl⟩ := hstep
      exact h
  | dropDisconnect =>
      obtain ⟨d, ds, -, -, rfl⟩ := hstep
      exact h
  | dropRetry =>
      obtain ⟨r, rs, hqueue, -, rfl⟩ := hstep
      exact h.pop hqueue rfl
  | recycle i =>
      obtain ⟨-, p, n, -, -, -, rfl⟩ := hstep
      exact h
  | discover i immediate =>
      obtain ⟨-, -, p, fd, -, -, -, rfl⟩ := hstep
      exact h
  | retry i immediate =>
      obtain ⟨-, -, p, fd, rs, -, -, hqueue, -, rfl⟩ := hstep
      exact h.pop hqueue rfl
  | abandon i =>
      obtain ⟨-, -, p, rs, -, -, hqueue, rfl⟩ := hstep
      exact h.pop hqueue rfl
  | accept i =>
      obtain ⟨-, p, fd, -, -, -, rfl⟩ := hstep
      exact h
  | replace i =>
      obtain ⟨-, p, -, ⟨-, -, rfl⟩ | ⟨-, -, rfl⟩⟩ := hstep
      · exact (peersInRetry_singleResolved v.statistics (v.object i).source).trans h
      · exact h
  | disconnect i =>
      obtain ⟨-, -, p, d, ds, -, -, -, -, -, rfl⟩ := hstep
      exact h
  | progress i =>
      obtain ⟨-, -, p, kernel, -, -, -, rfl, -⟩ := hstep
      exact h
  | fail i =>
      obtain ⟨-, -, -, p, -, -, rfl⟩ := hstep
      exact h
  | discard i =>
      obtain ⟨-, -, p, -, -, rfl⟩ := hstep
      exact (peersInRetry_singleResolved v.statistics (v.object i).source).trans h
  | dispatch i =>
      obtain ⟨-, -, p, kernel, cs, -, -, -, -, -, rfl⟩ := hstep
      exact (peersInRetry_singleResolved v.statistics.incrementConnectedBittorrentPeers
        (v.object i).source).trans h
  | requeue i =>
      obtain ⟨-, -, p, -, -, rfl⟩ := hstep
      have hcount : SizeT.inc v.statistics.peersInRetry = (v.retryQueue.length + 1) % 2 ^ 64 := by
        rw [h, SizeT.inc]
        omega
      refine hcount.trans ?_
      show _ = (v.retryQueue ++ [_]).length % 2 ^ 64
      rw [List.length_append, List.length_singleton]

end Ledger

namespace World

open Ledger

variable {w w' : World} {e : Event} {es : List Event} {i : ConnectionSlot} {infoHash : Vector Byte 20}

/-! ### The peers that are replaced -/

/-- The stage of the peer that makes way in a step, if one does. -/
def replaced (w : World) : Event → List Stage
  | .turn calls =>
      if w.control = .accepting true ∧ w.statistics.hasMetConnectionQuota = false ∧
          w.statistics.outboundInflight < 15 ∧ w.pool.available ≠ 0 then
        match calls.accept with
        | .accepted _ addr => ((w.peers addr.contact.endpoint).map w.ledger.stage).toList
        | .failed _ => []
      else []
  | _ => []

theorem replaced_of_replaces (h : w.Replaces e i) : w.replaced e = [w.ledger.stage i] := by
  obtain ⟨calls, fd, addr, rfl, hcontrol, hquota, hroom, havailable, haccept, hmapped⟩ := h
  rw [replaced, if_pos ⟨hcontrol, hquota, hroom, havailable⟩, haccept]
  dsimp only
  rw [hmapped]
  rfl

theorem replaced_cases (w : World) (e : Event) : w.replaced e = [] ∨ ∃ i, w.Replaces e i := by
  cases e with
  | turn calls =>
      rw [replaced]
      split
      · rename_i hroom
        obtain ⟨hcontrol, hquota, hroom, havailable⟩ := hroom
        cases haccept : calls.accept with
        | failed errno => exact Or.inl rfl
        | accepted fd addr =>
            cases hmapped : w.peers addr.contact.endpoint with
            | none =>
                refine Or.inl ?_
                dsimp only
                rw [hmapped]
                rfl
            | some i =>
                exact Or.inr ⟨i, calls, fd, addr, rfl, hcontrol, hquota, hroom, havailable, haccept, hmapped⟩
      · exact Or.inl rfl
  | _ => exact Or.inl rfl

/-- The moves of a step, with the peer that makes way told. -/
inductive Exchange (infoHash : Vector Byte 20) (w : World) (v' : Ledger) : List Stage → Prop
  | alone (m : Move) : (∀ j, m ≠ .replace j) → Step infoHash w.ledger m v' → Exchange infoHash w v' []
  | replacing (i x : ConnectionSlot) (v : Ledger) : Step infoHash w.ledger (.replace i) v → Registry v →
      Step infoHash v (.accept x) v' → Exchange infoHash w v' [w.ledger.stage i]

/-- The endpoint of an accepted connection is in the map for the new slot. -/
theorem acceptPeerConnection_peers (hpool : w.pool.WellFormed) {fd : Fd} {addr : SockStore}
    (havailable : w.pool.available ≠ 0) :
    ∃ x, w.pool.occupied x = false ∧
      (w.acceptPeerConnection (.accepted fd addr)).1.peers addr.contact.endpoint = some x := by
  unfold acceptPeerConnection
  simp only
  split
  · rename_i hnone
    exact absurd hnone havailable
  · split
    · rename_i hnone
      exact absurd hnone (SlotPool.acquire_ne_none havailable)
    · rename_i x pool hacquire
      obtain ⟨-, hx, -⟩ := hpool.acquire hacquire
      exact ⟨x, hx, Function.update_self _ _ _⟩

/-- Where a peer is to make way, it does. -/
theorem Replaces.exchange (h : w.InOrder) (hreplaces : w.Replaces e i) (hstep : w.step infoHash e = some w') :
    ∃ x v, Step infoHash w.ledger (.replace i) v ∧ Step infoHash v (.accept x) w'.ledger := by
  obtain ⟨calls, fd, addr, rfl, hcontrol, hquota, hroom, havailable, hcall, hmapped⟩ := hreplaces
  obtain ⟨hi, -⟩ := (h.registry.registered.peers_iff _ i).mp hmapped
  simp only [step] at hstep
  split at hstep
  · rename_i hfree
    rw [turn, hcontrol] at hstep
    have hledger : w'.ledger = (w.acceptPeerConnection calls.accept).1.ledger := by
      rw [← Option.some.inj hstep, acceptTurn, if_pos ⟨by rw [hquota]; rfl, hroom, rfl⟩]
      rfl
    rw [hledger]
    obtain ⟨-, haccepted⟩ := acceptPeerConnection_accepted infoHash h.pool h.registry hfree.2
    obtain ⟨x, hx, hpeers⟩ := @acceptPeerConnection_peers w h.pool fd addr havailable
    rw [hcall] at haccepted ⊢
    have hix : (w.acceptPeerConnection (.accepted fd addr)).1.peers addr.contact.endpoint ≠ some i := by
      rw [hpeers]
      rintro ⟨⟩
      exact Bool.noConfusion (hi.symm.trans hx)
    cases haccepted with
    | declined hsame => exact absurd ((congrFun (congrArg Ledger.peers hsame) _).trans hmapped) hix
    | accepted y hy =>
        obtain ⟨-, p, fd', -, -, hunmapped, heq⟩ := hy
        have hne : addr.contact.endpoint ≠ p.contact.endpoint := by
          intro hendpoint
          rw [← hendpoint] at hunmapped
          exact Option.noConfusion rfl (heq_of_eq (hunmapped.symm.trans hmapped))
        refine absurd ?_ hix
        refine (congrFun (congrArg Ledger.peers heq) _).trans ?_
        exact (Function.update_of_ne hne _ _).trans hmapped
    | replaced fd' store j x v hcall' _ hmapped' hreplace haccept =>
        cases hcall'
        cases Option.some.inj (hmapped.symm.trans hmapped')
        exact ⟨x, v, hreplace, haccept⟩
  · cases hstep

theorem step_exchange (h : w.InOrder) (hstep : w.step infoHash e = some w') :
    Exchange infoHash w w'.ledger (w.replaced e) := by
  rcases w.replaced_cases e with hnone | ⟨i, hreplaces⟩
  · rw [hnone]
    cases (step_takes h hstep).moves with
    | one m hcauses hm =>
        refine .alone m ?_ hm
        rintro j rfl
        exact hcauses
    | replacing i x v hreplaces =>
        rw [replaced_of_replaces hreplaces] at hnone
        cases hnone
  · rw [replaced_of_replaces hreplaces]
    obtain ⟨x, v, hreplace, haccept⟩ := hreplaces.exchange h hstep
    exact .replacing i x v hreplace (h.registry.step hreplace) haccept

/-! ### The counters in every run -/

/-- The stages of the peers that have made way, in the order in which they did. -/
def gone (infoHash : Vector Byte 20) (es : List Event) : List Stage :=
  Machine.collected (fun w => w.step infoHash) replaced .initial es

variable {p : Stage → Prop} [DecidablePred p] {c : ConnectionStatistics → Nat} {kept doubled : Stage → Bool}

theorem run_accounted (hkept : Kept p c kept doubled) (hfree : ¬ p .free)
    (hinitial : c World.initial.ledger.statistics = 0) (hrun : (managerMachine infoHash).Run .initial es w) :
    Accounted p c kept doubled (gone infoHash es) w.ledger := by
  induction hrun with
  | refl =>
      refine ⟨by rw [hinitial]; decide, ?_⟩
      rw [hinitial, initial_number hfree]
      rfl
  | @snoc t u es e hrun hstep ih =>
      have horder := reachable_inOrder (hrun.reachable (.init rfl))
      rw [gone, Machine.collected_snoc (fun _ _ _ hst => hst) hrun]
      have hexchange := step_exchange horder hstep
      generalize t.replaced e = stages at hexchange ⊢
      cases hexchange with
      | alone m hnot hm =>
          rw [List.append_nil]
          exact hkept.shifts (hm.shifts horder.registry) hnot ih
      | replacing i x v hreplace hregistry haccept =>
          exact hkept.shifts (haccept.shifts hregistry) (fun _ => Move.noConfusion)
            (hkept.replaces (hreplace.shifts horder.registry) ih)

theorem reachable_retriesCounted (h : (managerMachine infoHash).Reachable w) : RetriesCounted w.ledger :=
  ledger_invariant RetriesCounted rfl (fun _ hI _ _ hm => hm.retriesCounted hI)
    (fun _ hI _ _ hreplace _ haccept => haccept.retriesCounted (hreplace.retriesCounted hI)) h

theorem InOrder.hasFailed_iff (h : w.InOrder) (i : ConnectionSlot) :
    (w.pool.occupied i = true ∧ (w.peer i).state = .failed) ↔ HasFailed (w.ledger.stage i) := by
  refine ⟨fun ⟨hi, hstate⟩ => ?_, fun hstage => ?_⟩
  · exact (stage_of_occupied hi).trans ((h.staged hi).failed_of_state hstate).stage
  · cases hi : w.pool.occupied i with
    | false => exact Stage.noConfusion ((stage_of_free hi).symm.trans hstage)
    | true =>
        have hpeer : (w.peer i).stage = .failed := (stage_of_occupied hi).symm.trans hstage
        refine ⟨rfl, ?_⟩
        cases h.staged hi with
        | inFlight hp => exact Stage.noConfusion (hp.stage.symm.trans hpeer)
        | failed hp => exact hp.state
        | waiting hp => exact Stage.noConfusion (hp.stage.symm.trans hpeer)
        | connected hp => exact Stage.noConfusion (hp.stage.symm.trans hpeer)

theorem countP_never (stages : List Stage) : stages.countP never = 0 :=
  List.countP_eq_zero.mpr fun _ _ => Bool.false_ne_true

/-- **What the counters are worth in every run.** The counter of connected peers is one too high for each connected
peer that made way for an accepted connection, the counter of failed peers for each failed one, and the counter of
attempts under way is one too low for each that had failed or waited for its retry; nothing else sets them off. The
counter of retries is the length of their queue. All of them count modulo the word. -/
theorem counters_accounted (hrun : (managerMachine infoHash).Run .initial es w) :
    w.statistics.connectedBittorrentPeers = (Counting.count (fun i => w.pool.occupied i = true ∧
        (w.peer i).state = .connected) + (gone infoHash es).count .connected) % 2 ^ 64 ∧
      w.statistics.failedPeers = (Counting.count (fun i => w.pool.occupied i = true ∧
        (w.peer i).state = .failed) + (gone infoHash es).count .failed) % 2 ^ 64 ∧
      (w.statistics.inboundInflight + (gone infoHash es).countP idle) % 2 ^ 64 =
        Counting.count (fun i => w.pool.occupied i = true ∧ (w.peer i).source = .tracker ∧
          (w.peer i).forSock.active = true ∧ (w.peer i).forTimer.active = true) ∧
      w.statistics.peersInRetry = w.retryQueue.length % 2 ^ 64 := by
  have hreachable := hrun.reachable (.init rfl)
  have horder := reachable_inOrder hreachable
  obtain ⟨hlt, hconnected⟩ := run_accounted connected_kept (by decide) rfl hrun
  obtain ⟨hlt', hfailed⟩ := run_accounted failed_kept (by decide) rfl hrun
  obtain ⟨-, hinbound⟩ := run_accounted inbound_kept (by decide) rfl hrun
  have hle := w.ledger.number_le FromTracker
  rw [countP_never, Nat.add_zero] at hconnected hfailed hinbound
  rw [Nat.mod_eq_of_lt hlt] at hconnected
  rw [Nat.mod_eq_of_lt hlt'] at hfailed
  rw [Nat.mod_eq_of_lt (hle.trans_lt (by decide))] at hinbound
  rw [number_eq horder.isConnected_iff] at hconnected
  rw [number_eq horder.hasFailed_iff] at hfailed
  rw [number_eq horder.fromTracker_iff] at hinbound
  exact ⟨hconnected, hfailed, hinbound, reachable_retriesCounted hreachable⟩

/-- The attempt fails, and the peer connects to the manager before the retry: a failed peer too many is counted, and
an attempt too few. -/
theorem counters_accounted_failed : gone sampleInfoHash failedRun = [.failed] ∧
    (afterRun failedRun).statistics.failedPeers = 1 ∧
      ((afterRun failedRun).statistics.inboundInflight + 1) % 2 ^ 64 = 0 := by
  have hrun : (managerMachine sampleInfoHash).Run initial failedRun (afterRun failedRun) :=
    after_run (by decide +kernel)
  have hgone : gone sampleInfoHash failedRun = [.failed] := by decide +kernel
  have hfailed : Counting.count (fun i => (afterRun failedRun).pool.occupied i = true ∧
      ((afterRun failedRun).peer i).state = .failed) = 0 := by decide +kernel
  have hinbound : Counting.count (fun i => (afterRun failedRun).pool.occupied i = true ∧
      ((afterRun failedRun).peer i).source = .tracker ∧ ((afterRun failedRun).peer i).forSock.active = true ∧
        ((afterRun failedRun).peer i).forTimer.active = true) = 0 := by decide +kernel
  obtain ⟨-, hcount, hcount', -⟩ := counters_accounted hrun
  rw [hgone] at hcount hcount'
  rw [hfailed, show [Stage.failed].count .failed = 1 from rfl] at hcount
  rw [hinbound, show [Stage.failed].countP idle = 1 from rfl] at hcount'
  exact ⟨hgone, hcount, hcount'⟩

end World

end TorrentEngine
