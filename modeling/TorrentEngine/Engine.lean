import TorrentEngine.ContactFates
import TorrentEngine.Library.Conservation
import TorrentEngine.TrackerOutbox
import TorrentEngine.TrackerSpace

/-! The client as it runs: the tracker manager on one thread and the manager of peers on another, with the queue of
discoveries between them. Either model has its own view of the queue. What a step of the one does to it is done to
the other's view as well, and the two views never part. -/

open Transition
open scoped List

namespace TorrentEngine

open Tracker

structure Engine where
  trackers : TrackerWorld
  peers : World

inductive EngineEvent where
  | trackers (e : TrackerEvent)
  /-- A step of the manager of peers, of the transfer side or of the kernel. -/
  | peers (e : Event)

namespace Engine

/-- What the trackers have pushed onto the queue between these states. -/
def pushed (before after : TrackerWorld) : List PeerContact :=
  after.manager.discoveries.drop before.manager.discoveries.length

/-- The trackers after the consumer has taken so many contacts, if it has. -/
def consumed (env : TrackerEnvironment) (trackers : TrackerWorld) : Option Nat → Option TrackerWorld
  | none => some trackers
  | some count => trackers.step env (.consume count)

/-- A step of either side. The manager discovers what the trackers push, and they see taken what it takes; neither
happens by itself. -/
def step (env : TrackerEnvironment) (infoHash : Vector Byte 20) (s : Engine) : EngineEvent → Option Engine
  | .trackers (.consume _) => none
  | .trackers e => do
      let trackers ← s.trackers.step env e
      let discovers : List Event := (pushed s.trackers trackers).map .discover
      let peers ← Machine.replay (fun _ _ => true) (World.step infoHash) s.peers discovers
      some ⟨trackers, peers⟩
  | .peers (.discover _) => none
  | .peers e => do
      let peers ← s.peers.step infoHash e
      let trackers ← consumed env s.trackers (s.peers.taken e)
      some ⟨trackers, peers⟩

end Engine

def engineMachine (env : TrackerEnvironment) (infoHash : Vector Byte 20) : Machine Engine EngineEvent where
  Init s := (trackerMachine env).Init s.trackers ∧ s.peers = .initial
  Step s e s' := s.step env infoHash e = some s'

namespace Engine

variable {env : TrackerEnvironment} {infoHash : Vector Byte 20} {s s' s₀ : Engine} {e : EngineEvent}
  {es : List EngineEvent}

/-! ### A step of the whole -/

/-- What a step of the whole is on either side. -/
inductive Joint (env : TrackerEnvironment) (infoHash : Vector Byte 20) (s : Engine) (s' : Engine) :
    EngineEvent → Prop
  | trackers (e : TrackerEvent) : (∀ count, e ≠ .consume count) → s.trackers.step env e = some s'.trackers →
      Machine.replay (fun _ _ => true) (World.step infoHash) s.peers ((pushed s.trackers s'.trackers).map .discover) =
        some s'.peers →
      Joint env infoHash s s' (.trackers e)
  | peers (e : Event) : (∀ contact, e ≠ .discover contact) → s.peers.step infoHash e = some s'.peers →
      consumed env s.trackers (s.peers.taken e) = some s'.trackers → Joint env infoHash s s' (.peers e)

theorem step_joint (hstep : s.step env infoHash e = some s') : Joint env infoHash s s' e := by
  cases e with
  | trackers e =>
      have hconsume : ∀ count, e ≠ .consume count := by
        rintro count rfl
        cases hstep
      have hboth : ((s.trackers.step env e).bind fun trackers =>
          (Machine.replay (fun _ _ => true) (World.step infoHash) s.peers
            ((pushed s.trackers trackers).map .discover)).bind fun peers => some ⟨trackers, peers⟩) = some s' := by
        cases e with
        | consume count => exact absurd rfl (hconsume count)
        | signal e => exact hstep
        | timerExpires name which => exact hstep
        | finished name body => exact hstep
        | elapse time => exact hstep
      obtain ⟨trackers, htrackers, hrest⟩ := Option.bind_eq_some_iff.mp hboth
      obtain ⟨peers, hpeers, hlast⟩ := Option.bind_eq_some_iff.mp hrest
      cases hlast
      exact .trackers e hconsume htrackers hpeers
  | peers e =>
      have hdiscover : ∀ contact, e ≠ .discover contact := by
        rintro contact rfl
        cases hstep
      have hboth : ((s.peers.step infoHash e).bind fun peers =>
          (consumed env s.trackers (s.peers.taken e)).bind fun trackers => some ⟨trackers, peers⟩) = some s' := by
        cases e with
        | discover contact => exact absurd rfl (hdiscover contact)
        | setEndpoint => exact hstep
        | endpointDisconnected session perrno => exact hstep
        | drainDiscovered => exact hstep
        | notifyDisconnected => exact hstep
        | runDaemon => exact hstep
        | serverSocketCallback => exact hstep
        | timerExpires i => exact hstep
        | socketReady i revents calls => exact hstep
        | turn calls => exact hstep
      obtain ⟨peers, hpeers, hrest⟩ := Option.bind_eq_some_iff.mp hboth
      obtain ⟨trackers, htrackers, hlast⟩ := Option.bind_eq_some_iff.mp hrest
      cases hlast
      exact .peers e hdiscover hpeers htrackers

/-- Each side takes steps of its own. -/
theorem Joint.sides (h : Joint env infoHash s s' e) :
    (∃ es, (trackerMachine env).Run s.trackers es s'.trackers) ∧
      ∃ es, (managerMachine infoHash).Run s.peers es s'.peers := by
  cases h with
  | trackers e _ htrackers hpeers => exact ⟨⟨[e], .snoc (.refl _) htrackers⟩, _, .replay (fun _ _ _ h => h) hpeers⟩
  | peers e _ hpeers htrackers =>
      refine ⟨?_, [e], .snoc (.refl _) hpeers⟩
      cases htaken : s.peers.taken e with
      | none =>
          rw [htaken] at htrackers
          rw [← Option.some.inj htrackers]
          exact ⟨[], .refl _⟩
      | some count =>
          rw [htaken] at htrackers
          exact ⟨[.consume count], .snoc (.refl _) htrackers⟩

/-- The contacts that a step of the whole names. -/
def named (env : TrackerEnvironment) : EngineEvent → List PeerContact
  | .trackers e => e.named env
  | .peers _ => []

end Engine

/-- Contacts with room in the queue are all discovered. -/
theorem World.replay_discover {infoHash : Vector Byte 20} (contacts : List PeerContact) {w : World}
    (hroom : w.discoveries.length + contacts.length ≤ discoveriesCapacity) :
    Machine.replay (fun _ _ => true) (step infoHash) w (contacts.map .discover) =
      some { w with
        discoveries := w.discoveries ++ contacts
        discoveriesSent := w.discoveriesSent || !contacts.isEmpty } := by
  induction contacts generalizing w with
  | nil => simp only [List.map_nil, Machine.replay, List.append_nil, List.isEmpty_nil, Bool.not_true, Bool.or_false]
  | cons contact contacts ih =>
      rw [List.length_cons] at hroom
      have hlt : w.discoveries.length < 100 := by
        rw [discoveriesCapacity] at hroom
        omega
      have hstep : w.step infoHash (.discover contact) =
          some { w with discoveries := w.discoveries ++ [contact], discoveriesSent := true } := by
        rw [step, if_pos hlt]
      rw [List.map_cons, Machine.replay, if_pos rfl, hstep, Option.bind_some, ih (by rw [List.length_append, List.length_singleton]; omega)]
      simp only [List.append_assoc, List.singleton_append, Bool.true_or, List.isEmpty_cons, Bool.not_false,
        Bool.or_true]

namespace Engine

variable {env : TrackerEnvironment} {infoHash : Vector Byte 20} {s s' s₀ : Engine} {e : EngineEvent}
  {es : List EngineEvent}

/-! ### One queue -/

/-- The two views of the queue are one, and nothing in it is forgotten: the manager is at its loop, or will be. -/
structure Shared (s : Engine) : Prop where
  queue : s.trackers.manager.discoveries = s.peers.discoveries
  room : s.peers.discoveries.length ≤ discoveriesCapacity
  signalled : s.trackers.manager.consumerSignalled = true → s.peers.discoveriesSent = true
  awake : s.peers.discoveries ≠ [] → s.peers.discoveriesSent = true ∨ s.peers.control = .draining

/-- What a step of the trackers does on the other side of the queue. -/
theorem Shared.discovers {e : TrackerEvent} (h : s.Shared) (hconsume : ∀ count, e ≠ .consume count)
    (htrackers : s.trackers.step env e = some s'.trackers)
    (hpeers : Machine.replay (fun _ _ => true) (World.step infoHash) s.peers
      ((pushed s.trackers s'.trackers).map .discover) = some s'.peers) :
    s'.peers = { s.peers with
      discoveries := s.peers.discoveries ++ (e.named env).take (discoveriesCapacity - s.peers.discoveries.length)
      discoveriesSent := s.peers.discoveriesSent ||
        !((e.named env).take (discoveriesCapacity - s.peers.discoveries.length)).isEmpty } := by
  have hpushes := (TrackerWorld.step_pushes htrackers hconsume).discoveries
  have hpushed : pushed s.trackers s'.trackers =
      (e.named env).take (discoveriesCapacity - s.peers.discoveries.length) := by
    rw [pushed, hpushes, List.drop_left, h.queue]
  have hlength : s.peers.discoveries.length + (pushed s.trackers s'.trackers).length ≤ discoveriesCapacity := by
    have hroom := h.room
    rw [hpushed, List.length_take]
    omega
  rw [World.replay_discover _ hlength, hpushed] at hpeers
  exact (Option.some.inj hpeers).symm

/-- A step that takes nothing. -/
theorem Shared.untaken (h : s.Shared) (hsame : s'.trackers = s.trackers) (hinbox : s'.peers.inbox = s.peers.inbox)
    (hcontrol : s.peers.control = .draining → s.peers.discoveries ≠ [] → s'.peers.control = .draining) :
    s'.Shared := by
  obtain ⟨hqueue, hsent⟩ := Prod.mk.inj hinbox
  refine ⟨?_, ?_, ?_, fun hne => ?_⟩
  · rw [hsame, h.queue, hqueue]
  · rw [hqueue]
    exact h.room
  · rw [hsame, hsent]
    exact h.signalled
  · rw [hqueue] at hne
    rw [hsent]
    exact (h.awake hne).imp_right fun hdraining => hcontrol hdraining hne

theorem Shared.step (h : s.Shared) (hjoint : Joint env infoHash s s' e) : s'.Shared := by
  cases hjoint with
  | trackers e hconsume htrackers hpeers =>
      have hpushes := TrackerWorld.step_pushes htrackers hconsume
      have heq := h.discovers hconsume htrackers hpeers
      have hqueue := hpushes.discoveries
      have hsent := hpushes.signalled
      rw [h.queue] at hqueue hsent
      refine ⟨?_, ?_, fun hsignalled => ?_, fun hne => ?_⟩
      · rw [heq, hqueue]
      · have hroom := h.room
        rw [heq]
        dsimp only
        rw [List.length_append, List.length_take]
        omega
      · rw [heq]
        rcases hsent hsignalled with hbefore | hsome
        · exact Bool.or_eq_true_iff.mpr (Or.inl (h.signalled hbefore))
        · refine Bool.or_eq_true_iff.mpr (Or.inr ?_)
          rw [Bool.not_eq_true', List.isEmpty_eq_false_iff]
          exact hsome
      · rw [heq] at hne ⊢
        dsimp only at hne ⊢
        by_cases hsome : (e.named env).take (discoveriesCapacity - s.peers.discoveries.length) = []
        · rw [hsome, List.append_nil] at hne
          exact (h.awake hne).imp_left fun hbefore => Bool.or_eq_true_iff.mpr (Or.inl hbefore)
        · refine Or.inl (Bool.or_eq_true_iff.mpr (Or.inr ?_))
          rw [Bool.not_eq_true', List.isEmpty_eq_false_iff]
          exact hsome
  | peers e hdiscover hpeers htrackers =>
      cases World.step_hands hpeers hdiscover with
      | apart htaken _ hinbox _ hcontrol =>
          rw [htaken] at htrackers
          exact h.untaken (Option.some.inj htrackers).symm hinbox hcontrol
      | collects he hinbox _ hcontrol =>
          subst he
          obtain ⟨hqueue, -⟩ := Prod.mk.inj hinbox
          have htaken := Option.some.inj htrackers
          refine ⟨?_, ?_, fun hsignalled => ?_, fun _ => Or.inr hcontrol⟩
          · rw [← htaken, hqueue]
            exact h.queue
          · rw [hqueue]
            exact h.room
          · rw [← htaken] at hsignalled
            cases hsignalled
      | caches calls contact discoveries he hcontrol hdiscoveries hinbox _ hcontrol' =>
          subst he
          obtain ⟨hqueue, -⟩ := Prod.mk.inj hinbox
          have hone : s.peers.taken (.turn calls) = some 1 :=
            if_pos ⟨hcontrol, hdiscoveries ▸ List.cons_ne_nil contact discoveries⟩
          rw [hone] at htrackers
          have htaken := Option.some.inj htrackers
          refine ⟨?_, ?_, fun hsignalled => ?_, fun _ => Or.inr hcontrol'⟩
          · rw [← htaken, hqueue]
            show s.trackers.manager.discoveries.drop 1 = discoveries
            rw [h.queue, hdiscoveries]
            rfl
          · have hroom := h.room
            rw [hdiscoveries, List.length_cons] at hroom
            rw [hqueue]
            exact Nat.le_of_succ_le hroom
          · rw [← htaken] at hsignalled
            cases hsignalled
      | schedules calls contact cache he hcontrol hpop hinbox _ =>
          subst he
          have hnot : s.peers.control ≠ .draining := by
            rw [hcontrol]
            exact Control.noConfusion
          have htaken : s.peers.taken (.turn calls) = none := if_neg fun hboth => hnot hboth.1
          rw [htaken] at htrackers
          exact h.untaken (Option.some.inj htrackers).symm hinbox fun hdraining => absurd hdraining hnot

theorem init_shared (h : (engineMachine env infoHash).Init s) : s.Shared := by
  obtain ⟨⟨urls, manager, trackerConnections, hurls, -, htrackers⟩, hpeers⟩ := h
  have houtbox := TrackerManager.outbox_initiatlizeTrackers hurls
  obtain ⟨hqueue, hsignalled⟩ := Prod.mk.inj houtbox
  refine ⟨?_, ?_, fun hsent => ?_, fun hne => ?_⟩
  · rw [htrackers, hpeers]
    exact hqueue
  · rw [hpeers]
    exact Nat.zero_le _
  · rw [htrackers] at hsent
    exact Bool.noConfusion (hsignalled.symm.trans hsent)
  · rw [hpeers] at hne
    exact absurd rfl hne

theorem reachable_shared (h : (engineMachine env infoHash).Reachable s) : s.Shared :=
  h.invariant Shared (fun _ hinit => init_shared hinit) fun _ _ _ hshared hstep =>
    hshared.step (step_joint hstep)

theorem reachable_sides (h : (engineMachine env infoHash).Reachable s) :
    (trackerMachine env).Reachable s.trackers ∧ (managerMachine infoHash).Reachable s.peers := by
  refine h.invariant (fun s => (trackerMachine env).Reachable s.trackers ∧
    (managerMachine infoHash).Reachable s.peers) (fun s hinit => ?_) fun s e s' hs hstep => ?_
  · exact ⟨.init hinit.1, .init hinit.2⟩
  · obtain ⟨⟨ts, htrackers⟩, ps, hpeers⟩ := (step_joint hstep).sides
    exact ⟨htrackers.reachable hs.1, hpeers.reachable hs.2⟩

/-- **Two sides of one queue.** In every state that the whole reaches, each side is in a state that it reaches by
itself, both see the same contacts in the queue, and while there is one the manager's callback is under way or its
signal is pending. -/
theorem queue_shared (h : (engineMachine env infoHash).Reachable s) :
    (trackerMachine env).Reachable s.trackers ∧ (managerMachine infoHash).Reachable s.peers ∧ s.Shared := by
  obtain ⟨htrackers, hpeers⟩ := reachable_sides h
  exact ⟨htrackers, hpeers, reachable_shared h⟩

def sampleEngine : Engine := ⟨TrackerWorld.twoTrackers, .initial⟩

/-- Both trackers answer, before the manager of peers has run. -/
def answeredEvents : List EngineEvent := TrackerWorld.announceRun.map .trackers

theorem sampleEngine_init : (engineMachine plainEnvironment World.sampleInfoHash).Init sampleEngine :=
  ⟨TrackerWorld.twoTrackers_init, rfl⟩

def sampleAfter (es : List EngineEvent) : Engine :=
  (Machine.replay (fun _ _ => true) (step plainEnvironment World.sampleInfoHash) sampleEngine es).getD sampleEngine

/-- The run of events that are all possible. -/
theorem sampleAfter_run {es : List EngineEvent}
    (hpossible : (Machine.replay (fun _ _ => true) (step plainEnvironment World.sampleInfoHash)
      sampleEngine es).isSome) :
    (engineMachine plainEnvironment World.sampleInfoHash).Run sampleEngine es (sampleAfter es) :=
  .replay_getD (fun _ _ _ h => h) hpossible

theorem queue_shared_answered : (sampleAfter answeredEvents).peers.discoveries.length = 2 ∧
    (sampleAfter answeredEvents).peers.discoveriesSent = true := by
  have hrun := @sampleAfter_run answeredEvents (by decide +kernel)
  obtain ⟨-, -, hshared⟩ := queue_shared (hrun.reachable (.init sampleEngine_init))
  have hcount : (sampleAfter answeredEvents).trackers.manager.discoveries.length = 2 := by decide +kernel
  have hsignalled : (sampleAfter answeredEvents).trackers.manager.consumerSignalled = true := by decide +kernel
  exact ⟨hshared.queue ▸ hcount, hshared.signalled hsignalled⟩

/-! ### What becomes of the contacts -/

/-- The fates that a step of the whole decides. -/
def fates (env : TrackerEnvironment) (s : Engine) : EngineEvent → List (Fate × PeerContact)
  | .trackers e =>
      ((e.named env).drop (discoveriesCapacity - s.trackers.manager.discoveries.length)).map fun contact =>
        (.dropped, contact)
  | .peers e => s.peers.fates e

/-- **Balance of a step.** What was held or named is held, or has met its fate. -/
theorem Joint.balance (hshared : s.Shared) (h : Joint env infoHash s s' e) {held : List PeerContact}
    (hheld : s.peers.Holds held) :
    ∃ held', s'.peers.Holds held' ∧ (held ++ named env e).Perm ((s.fates env e).map Prod.snd ++ held') := by
  cases h with
  | trackers e hconsume htrackers hpeers =>
      have heq := hshared.discovers hconsume htrackers hpeers
      obtain ⟨cached, hcached, rfl⟩ := hheld
      have hroom : discoveriesCapacity - s.trackers.manager.discoveries.length =
          discoveriesCapacity - s.peers.discoveries.length := by rw [hshared.queue]
      rw [named, fates, hroom, List.map_map]
      generalize discoveriesCapacity - s.peers.discoveries.length = free at heq
      have hitems : ((e.named env).drop free).map (Prod.snd ∘ fun contact => (Fate.dropped, contact)) =
          (e.named env).drop free := List.map_id _
      refine ⟨_, ⟨cached, heq ▸ hcached, rfl⟩, ?_⟩
      have hqueue : s'.peers.discoveries = s.peers.discoveries ++ (e.named env).take free := by rw [heq]
      rw [hitems, hqueue]
      calc s.peers.discoveries ++ cached ++ e.named env
          _ = s.peers.discoveries ++ (cached ++ (e.named env).take free) ++ (e.named env).drop free := by
              rw [← List.append_assoc, List.append_assoc _ (List.take _ _), List.take_append_drop]
          _ ~ (e.named env).drop free ++ (s.peers.discoveries ++ (cached ++ (e.named env).take free)) :=
              List.perm_append_comm
          _ ~ (e.named env).drop free ++ (s.peers.discoveries ++ ((e.named env).take free ++ cached)) :=
              (List.perm_append_comm.append_left _).append_left _
          _ = (e.named env).drop free ++ (s.peers.discoveries ++ (e.named env).take free ++ cached) := by
              rw [List.append_assoc s.peers.discoveries]
  | peers e hdiscover hpeers htrackers =>
      rw [named, List.append_nil]
      exact (World.step_hands hpeers hdiscover).balance hheld

theorem run_balance (hinit : (engineMachine env infoHash).Init s₀)
    (hrun : (engineMachine env infoHash).Run s₀ es s) :
    ∃ held, s.peers.Holds held ∧ (es.flatMap (named env)).Perm
      ((Machine.collected (step env infoHash) (fates env) s₀ es).map Prod.snd ++ held) := by
  have hheld : s₀.peers.Holds [] := by
    rw [hinit.2]
    exact ⟨[], OverwritableCache.initial_represents (by decide) _, rfl⟩
  exact (hrun.conserves Shared (fun s => s.peers.Holds) (named env) (fates env) Prod.snd
    (fun _ _ _ hstep => hstep) (fun _ _ _ hs hstep => hs.step (step_joint hstep))
    (fun _ _ _ _ hs hheld hstep => (step_joint hstep).balance hs hheld) (init_shared hinit) hheld).2

/-- **No contact is lost and none appears.** In every run the contacts that the responses name are those that met
their fate, each once for each time it was named, and those that still wait in the queue or in the cache. -/
theorem contacts_conserved (hinit : (engineMachine env infoHash).Init s₀)
    (hrun : (engineMachine env infoHash).Run s₀ es s) :
    ∃ cached, s.peers.cache.Represents cached ∧ (es.flatMap (named env)).Perm
      ((Machine.collected (step env infoHash) (fates env) s₀ es).map Prod.snd ++ (s.peers.discoveries ++ cached)) := by
  obtain ⟨held, ⟨cached, hcached, rfl⟩, hperm⟩ := run_balance hinit hrun
  exact ⟨cached, hcached, hperm⟩

/-- A turn in which the kernel opens a connection, if it is asked to. -/
def connectTurn : Event := .turn { World.idleCalls with connect := ⟨.opened 5, .inprogress⟩ }

/-- Both responses name the one peer. The manager reaches out to it for the first, and manages it at the second. -/
def connectedEvents : List EngineEvent :=
  answeredEvents ++ (([.drainDiscovered, .turn World.idleCalls, .turn World.idleCalls, .turn World.idleCalls,
    .runDaemon, .turn World.idleCalls, connectTurn] : List Event) ++
      List.replicate 6 (Event.turn World.idleCalls)).map .peers

theorem contacts_conserved_connected : ∃ contacts, (sampleAfter connectedEvents).peers.cache.Represents contacts ∧
    (Machine.collected (step plainEnvironment World.sampleInfoHash) (fates plainEnvironment) sampleEngine
      connectedEvents).map Prod.fst = [.attempted, .managed] ∧
    (connectedEvents.flatMap (named plainEnvironment)).length = 2 + contacts.length := by
  have hrun := @sampleAfter_run connectedEvents (by decide +kernel)
  obtain ⟨contacts, hcontacts, hperm⟩ := contacts_conserved sampleEngine_init hrun
  have hfates : (Machine.collected (step plainEnvironment World.sampleInfoHash) (fates plainEnvironment)
      sampleEngine connectedEvents).map Prod.fst = [.attempted, .managed] := by decide +kernel
  have htwo := congrArg List.length hfates
  have hqueue : (sampleAfter connectedEvents).peers.discoveries = [] := by decide +kernel
  refine ⟨contacts, hcontacts, hfates, ?_⟩
  rw [List.length_map] at htwo
  rw [hperm.length_eq, List.length_append, List.length_map, htwo, hqueue]
  rfl

/-- A slot that the manager reaches out from was filled by an attempt, in this step or before. -/
theorem Joint.outbound (hshared : s.Shared) (horder : s.peers.InOrder) (h : Joint env infoHash s s' e)
    {i : ConnectionSlot} {endpoint : Endpoint} (hout : s'.peers.ledger.Outbound i endpoint) :
    s.peers.ledger.Outbound i endpoint ∨
      ∃ contact, contact.endpoint = endpoint ∧ (Fate.attempted, contact) ∈ s.fates env e := by
  cases h with
  | trackers e hconsume htrackers hpeers =>
      rw [hshared.discovers hconsume htrackers hpeers] at hout
      exact Or.inl hout
  | peers e _ hpeers _ => exact World.outbound_step horder hpeers hout

theorem run_outbound (hinit : (engineMachine env infoHash).Init s₀)
    (hrun : (engineMachine env infoHash).Run s₀ es s) {i : ConnectionSlot} {endpoint : Endpoint}
    (hout : s.peers.ledger.Outbound i endpoint) :
    ∃ contact, contact.endpoint = endpoint ∧
      (Fate.attempted, contact) ∈ Machine.collected (step env infoHash) (fates env) s₀ es := by
  induction hrun with
  | refl =>
      rw [hinit.2] at hout
      exact absurd hout (Ledger.not_outbound_of_free rfl)
  | snoc hrun hstep ih =>
      have hreach := hrun.reachable (.init hinit)
      have horder := World.reachable_inOrder (reachable_sides hreach).2
      rw [Machine.collected_snoc (fun _ _ _ hst => hst) hrun]
      rcases (step_joint hstep).outbound (reachable_shared hreach) horder hout with
        hbefore | ⟨contact, hendpoint, hnow⟩
      · obtain ⟨contact, hendpoint, hmem⟩ := ih hbefore
        exact ⟨contact, hendpoint, List.mem_append_left _ hmem⟩
      · exact ⟨contact, hendpoint, List.mem_append_right _ hnow⟩

/-- **The manager reaches out to nobody but the peers that trackers name.** Every peer it manages that did not connect
to it, whether its attempt is under way, has failed, waits to be tried again or has succeeded, is under an endpoint
that a response named, and that contact was taken for it. -/
theorem outbound_named (hinit : (engineMachine env infoHash).Init s₀)
    (hrun : (engineMachine env infoHash).Run s₀ es s) {i : ConnectionSlot} (hi : s.peers.pool.occupied i = true)
    (hsource : (s.peers.peer i).source = .tracker) :
    ∃ name body contact, EngineEvent.trackers (.finished name (some body)) ∈ es ∧
      contact ∈ contactsIn env body ∧ contact.endpoint = (s.peers.peer i).contact.endpoint ∧
      (Fate.attempted, contact) ∈ Machine.collected (step env infoHash) (fates env) s₀ es := by
  obtain ⟨contact, hendpoint, hattempted⟩ := run_outbound hinit hrun ⟨hi, hsource, rfl⟩
  obtain ⟨held, -, hperm⟩ := run_balance hinit hrun
  have hnamed : contact ∈ es.flatMap (named env) := by
    rw [hperm.mem_iff]
    exact List.mem_append_left _ (List.mem_map_of_mem hattempted)
  obtain ⟨e, he, hcontact⟩ := List.mem_flatMap.mp hnamed
  cases e with
  | peers e => exact absurd hcontact List.not_mem_nil
  | trackers e =>
      cases e with
      | finished name body =>
          cases body with
          | none => exact absurd hcontact List.not_mem_nil
          | some body => exact ⟨name, body, contact, he, hcontact, hendpoint, hattempted⟩
      | signal e => exact absurd hcontact List.not_mem_nil
      | timerExpires name which => exact absurd hcontact List.not_mem_nil
      | elapse time => exact absurd hcontact List.not_mem_nil
      | consume count => exact absurd hcontact List.not_mem_nil

theorem outbound_named_connected : ∃ name body contact,
    EngineEvent.trackers (.finished name (some body)) ∈ connectedEvents ∧
      contact ∈ contactsIn plainEnvironment body ∧
      contact.endpoint = ((sampleAfter connectedEvents).peers.peer World.firstSlot).contact.endpoint := by
  have hrun := @sampleAfter_run connectedEvents (by decide +kernel)
  obtain ⟨name, body, contact, hmem, hcontact, hendpoint, -⟩ :=
    @outbound_named plainEnvironment World.sampleInfoHash _ sampleEngine connectedEvents sampleEngine_init hrun
      World.firstSlot (by decide +kernel) (by decide +kernel)
  exact ⟨name, body, contact, hmem, hcontact, hendpoint⟩

end Engine

end TorrentEngine
