import TorrentEngine.ContactMoves
import TorrentEngine.PeerStages

/-! Where the peers come from that the manager has reached out to: each is one of the contacts that a connection was
initiated to, also after it has failed and been tried again. -/

open Transition

namespace TorrentEngine

open PeerConnection

namespace Ledger

variable {v v' : Ledger} {m : Move} {i : ConnectionSlot} {infoHash : Vector Byte 20}

/-- The slot is taken by a peer that the manager has reached out to. -/
structure Outbound (v : Ledger) (i : ConnectionSlot) (endpoint : Endpoint) : Prop where
  occupied : v.occupied i = true
  source : (v.object i).source = .tracker
  endpoint_eq : (v.object i).contact.endpoint = endpoint

theorem Outbound.same {endpoint : Endpoint} (h : Outbound v' i endpoint) (hsame : SameSlot v v' i) :
    Outbound v i endpoint where
  occupied := hsame.occupied ▸ h.occupied
  source := hsame.object ▸ h.source
  endpoint_eq := hsame.object ▸ h.endpoint_eq

/-- The peer of a slot is another one now, but stays with its source and its endpoint. -/
theorem Outbound.replaced {endpoint : Endpoint} {p : PeerConnection} (h : Outbound v' i endpoint)
    (hi : v.occupied i = true) (hobject : v'.object = Function.update v.object i p)
    (hsource : (v'.object i).source = .tracker → (v.object i).source = .tracker)
    (hendpoint : p.contact.endpoint = (v.object i).contact.endpoint) : Outbound v i endpoint where
  occupied := hi
  source := hsource h.source
  endpoint_eq := by
    have hp : v'.object i = p := (congrFun hobject i).trans (Function.update_self i p v.object)
    rw [← hendpoint, ← hp, h.endpoint_eq]

theorem Outbound.sameAttempt {endpoint : Endpoint} {p : PeerConnection} (h : Outbound v' i endpoint)
    (hi : v.occupied i = true) (hobject : v'.object = Function.update v.object i p)
    (hsame : SameAttempt (v.object i) p) : Outbound v i endpoint := by
  refine h.replaced hi hobject (fun hsource => ?_) hsame.endpoint
  have hp : v'.object i = p := (congrFun hobject i).trans (Function.update_self i p v.object)
  rw [← hsame.source, ← hp, hsource]

theorem not_outbound_of_free {endpoint : Endpoint} (hfree : v'.occupied i = false) : ¬ Outbound v' i endpoint :=
  fun h => Bool.noConfusion (hfree.symm.trans h.occupied)

/-- **Only a discovery makes a slot outbound.** Every other move finds it so, under the same endpoint. -/
theorem Step.outbound (hstep : Step infoHash v m v') {endpoint : Endpoint} (h : Outbound v' i endpoint) :
    (∃ immediate, m = .discover i immediate) ∨ Outbound v i endpoint := by
  by_cases hslot : m.slot = some i
  case neg => exact Or.inr (h.same (hstep.sameSlot hslot))
  have hfreed : ∀ {f : ConnectionSlot → Bool}, v'.occupied = Function.update f i false → False := fun {f} heq =>
    not_outbound_of_free ((congrFun heq i).trans (Function.update_self i false f)) h
  cases m with
  | quiet => cases hslot
  | setEndpoint => cases hslot
  | endSession => cases hslot
  | dropDisconnect => cases hslot
  | dropRetry => cases hslot
  | recycle x =>
      cases hslot
      obtain ⟨hfree, p, n, -, -, -, rfl⟩ := hstep
      exact absurd h (not_outbound_of_free hfree)
  | discover x immediate =>
      cases hslot
      exact Or.inl ⟨immediate, rfl⟩
  | retry x immediate =>
      cases hslot
      obtain ⟨hi, hwaiting, p, fd, rs, -, -, -, hendpoint, rfl⟩ := hstep
      exact Or.inr (h.replaced hi rfl (fun _ => hwaiting.source) hendpoint)
  | abandon x =>
      cases hslot
      obtain ⟨-, -, p, rs, -, -, -, rfl⟩ := hstep
      exact absurd rfl hfreed
  | accept x =>
      cases hslot
      obtain ⟨-, p, fd, hincoming, -, -, rfl⟩ := hstep
      have hserver : (Function.update v.object i p i).source = .tcpServer := by
        rw [Function.update_self]
        exact hincoming.source
      exact Psource.noConfusion (hserver.symm.trans h.source)
  | replace x =>
      cases hslot
      obtain ⟨-, p, -, ⟨-, -, rfl⟩ | ⟨-, -, rfl⟩⟩ := hstep
      · exact absurd rfl hfreed
      · exact absurd rfl hfreed
  | disconnect x =>
      cases hslot
      obtain ⟨-, -, p, d, ds, -, -, -, -, -, rfl⟩ := hstep
      exact absurd rfl hfreed
  | progress x =>
      cases hslot
      obtain ⟨hi, -, p, kernel, -, hsame, -, rfl, -⟩ := hstep
      exact Or.inr (h.sameAttempt hi rfl hsame)
  | fail x =>
      cases hslot
      obtain ⟨hi, -, hsource, p, -, hendpoint, rfl⟩ := hstep
      exact Or.inr (h.replaced hi rfl (fun _ => hsource) hendpoint)
  | discard x =>
      cases hslot
      obtain ⟨-, -, p, -, -, rfl⟩ := hstep
      exact absurd rfl hfreed
  | dispatch x =>
      cases hslot
      obtain ⟨hi, -, p, kernel, cs, -, hsame, -, -, -, rfl⟩ := hstep
      exact Or.inr (h.sameAttempt hi rfl hsame)
  | requeue x =>
      cases hslot
      obtain ⟨hi, hfailed, p, -, hendpoint, rfl⟩ := hstep
      exact Or.inr (h.replaced hi rfl (fun _ => hfailed.source) hendpoint)

end Ledger

namespace World

variable {w w' : World} {i : ConnectionSlot} {infoHash : Vector Byte 20} {e : Event}

open Ledger

/-! ### The endpoints that a scheduler adds to the map -/

theorem peers_schedulerReturns (w : World) (found : Bool) : (w.schedulerReturns found).peers = w.peers := by
  unfold schedulerReturns
  cases w.current <;> rfl

theorem peers_afterInitiate {endpoint : Endpoint} {calls : ConnectCalls}
    (h : (afterInitiate i (w.initiateConnect i calls)).peers endpoint ≠ none) : w.peers endpoint ≠ none := by
  have htouched := Touched.connect w i calls
  unfold initiateConnect at h
  generalize w.connect i calls = result at htouched h
  obtain ⟨w₁, started⟩ := result
  obtain ⟨object, kernel, failedAssertions, rfl⟩ := htouched
  cases started with
  | true =>
      intro hnone
      refine h ((congrFun (peers_schedulerReturns _ true) endpoint).trans ?_)
      exact hnone
  | false =>
      intro hnone
      refine h ?_
      show Function.update w.peers _ none endpoint = none
      rw [Function.update_apply]
      split
      · rfl
      · exact hnone

theorem peers_failedTurn {endpoint : Endpoint} {calls : ConnectCalls}
    (h : (w.failedTurn calls).peers endpoint ≠ none) : w.peers endpoint ≠ none := by
  unfold failedTurn at h
  split at h
  · rwa [peers_schedulerReturns] at h
  · simp only at h
    split at h
    · exact h
    · have hbefore := peers_afterInitiate h
      exact hbefore

/-- The contact taken from the cache is the only one to come into the map. -/
theorem peers_discoveredTurn {endpoint : Endpoint} {calls : ConnectCalls}
    (h : (w.discoveredTurn calls).peers endpoint ≠ none) (hnone : w.peers endpoint = none) :
    ∃ contact cache, w.cache.freshPop = some (contact, cache) ∧ w.peers contact.endpoint = none ∧
      contact.endpoint = endpoint := by
  unfold discoveredTurn at h
  split at h
  · rw [peers_schedulerReturns] at h
    exact absurd hnone h
  · rename_i contact cache hpop
    unfold schedulePeer at h
    split at h
    · rw [peers_schedulerReturns] at h
      exact absurd hnone h
    · split at h
      · exact absurd hnone h
      · rename_i hunmapped
        have hbefore := peers_afterInitiate h
        refine ⟨contact, cache, hpop, hunmapped, ?_⟩
        by_contra hne
        refine hbefore ?_
        show Function.update w.peers contact.endpoint _ endpoint = none
        rw [Function.update_of_ne (Ne.symm hne), hnone]

/-! ### Steps -/

/-- **A slot becomes outbound only by an attempt.** -/
theorem outbound_step (h : w.InOrder) (hstep : w.step infoHash e = some w') {endpoint : Endpoint}
    (hout : Outbound w'.ledger i endpoint) :
    Outbound w.ledger i endpoint ∨
      ∃ contact, contact.endpoint = endpoint ∧ (Fate.attempted, contact) ∈ w.fates e := by
  have hmapped : w'.peers endpoint = some i :=
    ((h.step hstep).registry.registered.peers_iff endpoint i).mpr ⟨hout.occupied, hout.endpoint_eq⟩
  have hsome : w'.peers endpoint ≠ none := by
    rw [hmapped]
    exact Option.some_ne_none i
  cases (step_takes h hstep).moves with
  | replacing j x v hreplaces hreplace haccept =>
      rcases haccept.outbound hout with ⟨immediate, hmove⟩ | hmid
      · cases hmove
      · rcases hreplace.outbound hmid with ⟨immediate, hmove⟩ | hbefore
        · cases hmove
        · exact Or.inl hbefore
  | one m hcauses hm =>
      rcases hm.outbound hout with ⟨immediate, rfl⟩ | hbefore
      case inr => exact Or.inl hbefore
      obtain ⟨-, -, p, fd, -, -, hunmapped, hledger⟩ := hm
      obtain ⟨-, calls, fd', rfl, -, hwhere⟩ := hcauses
      have hobject : w'.ledger.object i = p := by
        rw [hledger]
        exact Function.update_self i p w.ledger.object
      have hnone : w.peers endpoint = none := by
        rw [← hout.endpoint_eq, hobject]
        exact hunmapped
      have hturn : w.turn calls = some w' := by
        simp only [step] at hstep
        split at hstep
        · exact hstep
        · cases hstep
      rcases hwhere with ⟨hcontrol, -⟩ | ⟨hcontrol, -⟩
      · rw [turn, hcontrol] at hturn
        cases hturn
        obtain ⟨contact, cache, hpop, hfresh, hendpoint⟩ := peers_discoveredTurn hsome hnone
        refine Or.inr ⟨contact, hendpoint, ?_⟩
        have hfates : w.fates (.turn calls) = [(.attempted, contact)] := by
          rw [fates, hcontrol]
          show w.schedules = _
          rw [schedules, hpop, Option.map_some, hfresh]
          rfl
        rw [hfates]
        exact List.mem_singleton_self _
      · rw [turn, hcontrol] at hturn
        cases hturn
        exact absurd hnone (peers_failedTurn hsome)

end World

end TorrentEngine
