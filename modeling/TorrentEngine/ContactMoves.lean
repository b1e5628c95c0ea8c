import TorrentEngine.DiscoveryCache

/-! Which steps of the manager move the contacts that the trackers find: from the queue to the cache, and from the
cache to a scheduler. All others leave both alone. -/

open Transition
open scoped List

namespace TorrentEngine

open PeerConnection Ledger

namespace World

variable {w w' : World} {i : ConnectionSlot} {infoHash : Vector Byte 20} {e : Event}

/-- The queue of discoveries, and whether its signal is pending. -/
def inbox (w : World) : List PeerContact × Bool := (w.discoveries, w.discoveriesSent)

/-! ### What the callbacks of a peer leave alone -/

theorem inbox_singleResolved (w : World) (source : Psource) : (w.singleResolved source).inbox = w.inbox := by
  unfold singleResolved
  split <;> rfl

theorem inbox_deletePeerConnection (w : World) (i : ConnectionSlot) :
    (w.deletePeerConnection i).inbox = w.inbox := rfl

theorem inbox_hardDeletePeerConnection (w : World) (i : ConnectionSlot) :
    (w.hardDeletePeerConnection i).inbox = w.inbox := by
  rw [hardDeletePeerConnection, inbox_deletePeerConnection, inbox_singleResolved]
  rfl

theorem inbox_handlePeerFailure (w : World) (i : ConnectionSlot) : (w.handlePeerFailure i).inbox = w.inbox := by
  unfold handlePeerFailure
  simp only
  split
  · rw [inbox_deletePeerConnection, inbox_singleResolved]
    rfl
  · exact inbox_singleResolved _ _

theorem inbox_handlePeerConnectionAndDispatch (w : World) (i : ConnectionSlot) :
    (w.handlePeerConnectionAndDispatch i).inbox = w.inbox := by
  unfold handlePeerConnectionAndDispatch
  exact inbox_singleResolved _ _

theorem inbox_sendMessages (w : World) (i : ConnectionSlot) (call : SendReturn) :
    (w.sendMessages i call).1.inbox = w.inbox := by
  cases call <;> rfl

theorem inbox_recvMessages (w : World) (i : ConnectionSlot) (call : RecvReturn) :
    (w.recvMessages i call).1.inbox = w.inbox := by
  cases call with
  | failed errno => rfl
  | delivers bytes =>
      unfold recvMessages
      simp only
      split <;> rfl

/-- Whatever is done next with what the kernel took of an encoded handshake. -/
theorem inbox_sendEncoded (infoHash : Vector Byte 20) (w : World) (i : ConnectionSlot) (call : SendReturn) :
    ((w.encodeHandshake infoHash i).sendMessages i call).1.inbox = w.inbox :=
  inbox_sendMessages _ i call

theorem inbox_handshakeWrite (w : World) (i : ConnectionSlot) (calls : SocketCalls) :
    (w.handshakeWrite i calls).inbox = w.inbox := by
  have hsend := inbox_sendMessages w i calls.send
  unfold handshakeWrite
  generalize w.sendMessages i calls.send = sent at hsend ⊢
  obtain ⟨w₁, ok, exhausted⟩ := sent
  rw [← hsend]
  cases ok with
  | false => exact inbox_handlePeerFailure w₁ i
  | true =>
      cases exhausted with
      | false => rfl
      | true =>
          simp only
          split
          · rfl
          · exact inbox_handlePeerConnectionAndDispatch w₁ i
          · rfl

theorem inbox_handshakeRead (w : World) (i : ConnectionSlot) (calls : SocketCalls) :
    (w.handshakeRead infoHash i calls).inbox = w.inbox := by
  have hrecv := inbox_recvMessages w i calls.recv
  unfold handshakeRead
  generalize w.recvMessages i calls.recv = received at hrecv ⊢
  obtain ⟨w₁, ok⟩ := received
  rw [← hrecv]
  cases ok with
  | false => exact inbox_handlePeerFailure w₁ i
  | true =>
      simp only
      split
      · rfl
      · split
        · exact inbox_hardDeletePeerConnection _ i
        · split
          · exact inbox_handlePeerConnectionAndDispatch _ i
          · rfl
          · generalize hsent : sendMessages _ i calls.send = sent
            have hsend : sent.1.inbox = w₁.inbox := hsent ▸ inbox_sendEncoded infoHash _ i calls.send
            obtain ⟨w₂, ok, exhausted⟩ := sent
            refine Eq.trans ?_ hsend
            cases ok with
            | false => exact inbox_handlePeerFailure w₂ i
            | true =>
                cases exhausted with
                | false => rfl
                | true => exact inbox_handlePeerConnectionAndDispatch w₂ i

theorem inbox_handlePeerTransportLevelInitiations (w : World) (i : ConnectionSlot) (event : IoEvent)
    (calls : SocketCalls) :
    (w.handlePeerTransportLevelInitiations infoHash i event calls).inbox = w.inbox := by
  have hconnected : (w.peerTransportLevelConnected i calls.getsockopt).1.inbox = w.inbox := by
    cases calls.getsockopt with
    | failed => rfl
    | error error =>
        unfold peerTransportLevelConnected
        simp only
        split <;> rfl
  unfold handlePeerTransportLevelInitiations
  cases event with
  | read => rfl
  | write =>
      simp only
      generalize w.peerTransportLevelConnected i calls.getsockopt = connected at hconnected ⊢
      obtain ⟨w₁, ok⟩ := connected
      rw [← hconnected]
      cases ok with
      | false => exact inbox_handlePeerFailure w₁ i
      | true =>
          simp only
          generalize hsent : sendMessages _ i calls.send = sent
          have hsend : sent.1.inbox = w₁.inbox := hsent ▸ inbox_sendEncoded infoHash _ i calls.send
          obtain ⟨w₂, ok, exhausted⟩ := sent
          refine Eq.trans ?_ hsend
          cases ok with
          | false => exact inbox_handlePeerFailure w₂ i
          | true => cases exhausted <;> rfl

theorem inbox_peerSocketCallback (w : World) (i : ConnectionSlot) (revents : Revents) (calls : SocketCalls) :
    (w.peerSocketCallback infoHash i revents calls).inbox = w.inbox := by
  unfold peerSocketCallback
  simp only
  split
  · exact inbox_hardDeletePeerConnection _ i
  · cases revents with
    | error => exact inbox_handlePeerFailure _ i
    | io event =>
        simp only
        split
        · exact inbox_handlePeerTransportLevelInitiations _ i event calls
        · exact inbox_handlePeerTransportLevelInitiations _ i event calls
        · exact inbox_handlePeerTransportLevelInitiations _ i event calls
        · cases event with
          | write => exact inbox_handshakeWrite _ i calls
          | read => exact inbox_handshakeRead _ i calls
        · exact inbox_hardDeletePeerConnection _ i
        · exact inbox_hardDeletePeerConnection _ i

theorem inbox_peerTimerCallback (w : World) (i : ConnectionSlot) : (w.peerTimerCallback i).inbox = w.inbox := by
  rw [peerTimerCallback_eq]
  split
  · rfl
  · exact inbox_handlePeerFailure (w.timedOut i) i

/-! ### What the turns of the schedulers leave alone -/

theorem Touched.inbox_eq (h : Touched w w') : w'.inbox = w.inbox := by
  obtain ⟨object, kernel, failedAssertions, rfl⟩ := h
  rfl

theorem inbox_schedulerReturns (w : World) (found : Bool) : (w.schedulerReturns found).inbox = w.inbox := by
  unfold schedulerReturns
  cases w.current <;> rfl

theorem inbox_afterInitiate (w : World) (i : ConnectionSlot) (calls : ConnectCalls) :
    (afterInitiate i (w.initiateConnect i calls)).inbox = w.inbox := by
  have htouched := (Touched.connect w i calls).inbox_eq
  unfold initiateConnect
  generalize w.connect i calls = result at htouched ⊢
  obtain ⟨w₁, started⟩ := result
  cases started with
  | true => exact (inbox_schedulerReturns _ true).trans htouched
  | false => exact htouched

theorem inbox_schedulePeer (w : World) (contact : PeerContact) (calls : ConnectCalls) :
    (w.schedulePeer contact calls).inbox = w.inbox := by
  unfold schedulePeer
  split
  · exact inbox_schedulerReturns _ false
  · split
    · rfl
    · exact inbox_afterInitiate _ _ calls

theorem inbox_discoveredTurn (w : World) (calls : ConnectCalls) : (w.discoveredTurn calls).inbox = w.inbox := by
  unfold discoveredTurn
  split
  · exact inbox_schedulerReturns w false
  · exact inbox_schedulePeer _ _ calls

theorem inbox_disconnectedTurn (w : World) (calls : ConnectCalls) :
    (w.disconnectedTurn calls).inbox = w.inbox := by
  unfold disconnectedTurn
  split
  · exact inbox_schedulerReturns w false
  · simp only
    split
    · rfl
    · split
      · rfl
      · exact inbox_afterInitiate _ _ calls

theorem inbox_failedTurn (w : World) (calls : ConnectCalls) : (w.failedTurn calls).inbox = w.inbox := by
  unfold failedTurn
  split
  · exact inbox_schedulerReturns w false
  · simp only
    split
    · rfl
    · exact inbox_afterInitiate _ _ calls

theorem inbox_establisherTurn (w : World) : w.establisherTurn.inbox = w.inbox := by
  unfold establisherTurn
  split
  · split
    · split
      · exact inbox_schedulerReturns w false
      · rfl
    · rfl
    · rfl
  · rfl

theorem inbox_makeWay (w : World) (endpoint : Endpoint) : (w.makeWay endpoint).inbox = w.inbox := by
  unfold makeWay
  split
  · rfl
  · rename_i mapped _
    unfold replacePeer
    simp only
    split
    · exact inbox_singleResolved (w.closeSocket mapped) (w.peer mapped).source
    · rfl

theorem inbox_acceptTurn (w : World) (pendingAccepts : Bool) (call : AcceptReturn) :
    (w.acceptTurn pendingAccepts call).inbox = w.inbox := by
  have haccept : (w.acceptPeerConnection call).1.inbox = w.inbox := by
    cases call with
    | failed errno => rfl
    | accepted fd newStore =>
        unfold acceptPeerConnection
        simp only
        split
        · rfl
        · split
          · rfl
          · exact inbox_makeWay _ _
  unfold acceptTurn
  split
  · exact haccept
  · rfl

end World

/-! ### What becomes of a contact -/

/-- How a contact that a tracker named ends up. -/
inductive Fate where
  /-- The queue was full. -/
  | dropped
  /-- It was the stalest contact of the full cache. -/
  | overwritten
  /-- A peer was managed under its endpoint. -/
  | managed
  /-- A connection to it was initiated. -/
  | attempted
  deriving DecidableEq

namespace World

variable {w w' : World} {infoHash : Vector Byte 20} {e : Event}

/-- What a step takes off the queue: the callback takes the signal, and a turn of its loop a contact. -/
def taken (w : World) : Event → Option Nat
  | .drainDiscovered => some 0
  | .turn _ => if w.control = .draining ∧ w.discoveries ≠ [] then some 1 else none
  | _ => none

/-- The contact that the next push to the cache overwrites, if it does. -/
def overwrites (w : World) : List (Fate × PeerContact) :=
  if w.discoveries = [] ∨ w.cache.size < 200 then []
  else (w.cache.stalePop.map fun popped => (.overwritten, popped.1)).toList

/-- The contact that the scheduler for discovered peers takes from the cache. -/
def schedules (w : World) : List (Fate × PeerContact) :=
  (w.cache.freshPop.map fun popped =>
    (if (w.peers popped.1.endpoint).isSome then .managed else .attempted, popped.1)).toList

/-- The fate that a step decides. -/
def fates (w : World) : Event → List (Fate × PeerContact)
  | .turn _ =>
      match w.control with
      | .draining => w.overwrites
      | .discovering => w.schedules
      | _ => []
  | _ => []

/-- What a step does with the contacts. Nothing is taken while the manager stands elsewhere, and where the callback
has begun it goes on to the end of the queue. -/
inductive Hands (w : World) (e : Event) (w' : World) : Prop
  | apart : w.taken e = none → w.fates e = [] → w'.inbox = w.inbox → w'.cache = w.cache →
      (w.control = .draining → w.discoveries ≠ [] → w'.control = .draining) → Hands w e w'
  | collects : e = .drainDiscovered → w'.inbox = (w.discoveries, false) → w'.cache = w.cache →
      w'.control = .draining → Hands w e w'
  | caches (calls : TurnCalls) (contact : PeerContact) (discoveries : List PeerContact) : e = .turn calls →
      w.control = .draining → w.discoveries = contact :: discoveries →
      w'.inbox = (discoveries, w.discoveriesSent) → w'.cache = w.cache.push contact →
      w'.control = .draining → Hands w e w'
  | schedules (calls : TurnCalls) (contact : PeerContact) (cache : OverwritableCache PeerContact 200) :
      e = .turn calls → w.control = .discovering → w.cache.freshPop = some (contact, cache) →
      w'.inbox = w.inbox → w'.cache = cache → Hands w e w'

/-- The turn is not one of the callback, nor one of the scheduler for discovered peers. -/
theorem Hands.elsewhere {calls : TurnCalls} {control : Control} (hcontrol : w.control = control)
    (hdraining : control ≠ .draining) (hdiscovering : control ≠ .discovering) (hinbox : w'.inbox = w.inbox)
    (hcontacts : w'.contacts = w.contacts) : Hands w (.turn calls) w' := by
  subst hcontrol
  refine .apart (if_neg fun h => hdraining h.1) ?_ hinbox (congrArg Prod.fst hcontacts)
    fun h => absurd h hdraining
  rw [fates]
  split
  · rename_i hcontrol
    exact absurd hcontrol hdraining
  · rename_i hcontrol
    exact absurd hcontrol hdiscovering
  · rfl

theorem drainTurn_hands (hcontrol : w.control = .draining) (calls : TurnCalls) :
    Hands w (.turn calls) w.drainTurn := by
  unfold drainTurn
  split
  · rename_i contact discoveries hdiscoveries
    exact .caches calls contact discoveries rfl hcontrol hdiscoveries rfl rfl hcontrol
  · rename_i hdiscoveries
    refine .apart (if_neg fun h => h.2 hdiscoveries) ?_ ?_ ?_ fun _ h => absurd hdiscoveries h
    · rw [fates, hcontrol]
      exact if_pos (Or.inl hdiscoveries)
    · simp only
      split <;> rfl
    · simp only
      split <;> rfl

theorem discoveredTurn_hands (hcontrol : w.control = .discovering) (calls : TurnCalls) :
    Hands w (.turn calls) (w.discoveredTurn calls.connect) := by
  have hdraining : w.control ≠ .draining := by
    rw [hcontrol]
    exact Control.noConfusion
  cases hpop : w.cache.freshPop with
  | none =>
      have hturn : w.discoveredTurn calls.connect = w.schedulerReturns false := by rw [discoveredTurn, hpop]
      rw [hturn]
      refine .apart (if_neg fun h => hdraining h.1) ?_ (inbox_schedulerReturns w false)
        (congrArg Prod.fst (contacts_schedulerReturns w false)) fun h => absurd h hdraining
      rw [fates, hcontrol]
      show w.schedules = []
      rw [World.schedules, hpop]
      rfl
  | some popped =>
      obtain ⟨contact, cache⟩ := popped
      refine .schedules calls contact cache rfl hcontrol hpop (inbox_discoveredTurn w calls.connect) ?_
      unfold discoveredTurn
      rw [hpop]
      exact congrArg Prod.fst (contacts_schedulePeer _ contact calls.connect)

theorem turn_hands {calls : TurnCalls} (hturn : w.turn calls = some w') : Hands w (.turn calls) w' := by
  unfold turn at hturn
  split at hturn <;> cases hturn
  · rename_i hcontrol
    exact drainTurn_hands hcontrol calls
  · rename_i hcontrol
    exact .elsewhere hcontrol nofun nofun (inbox_establisherTurn w) (contacts_establisherTurn w)
  · rename_i hcontrol
    exact discoveredTurn_hands hcontrol calls
  · rename_i hcontrol
    exact .elsewhere hcontrol nofun nofun (inbox_disconnectedTurn w calls.connect)
      (contacts_disconnectedTurn w calls.connect)
  · rename_i hcontrol
    exact .elsewhere hcontrol nofun nofun (inbox_failedTurn w calls.connect) (contacts_failedTurn w calls.connect)
  · rename_i hcontrol
    exact .elsewhere hcontrol nofun nofun (inbox_acceptTurn w _ calls.accept) (contacts_acceptTurn w _ calls.accept)

/-- Another thread, or a callback of a peer. -/
theorem Hands.beside (htaken : w.taken e = none) (hfates : w.fates e = []) (hinbox : w'.inbox = w.inbox)
    (hcache : w'.cache = w.cache) (hcontrol : w'.control = w.control) : Hands w e w' :=
  .apart htaken hfates hinbox hcache fun h _ => hcontrol.trans h

/-- Every step of the manager hands a contact on, or leaves all of them where they are. -/
theorem step_hands (hstep : w.step infoHash e = some w') (hdiscover : ∀ contact, e ≠ .discover contact) :
    Hands w e w' := by
  have houtside : ∀ {control : Control}, w.control = .eventLoop → w.control = .draining →
      w.discoveries ≠ [] → control = .draining := fun hloop hdraining =>
    Control.noConfusion (hloop.symm.trans hdraining)
  cases e with
  | discover contact => exact absurd rfl (hdiscover contact)
  | setEndpoint =>
      simp only [step] at hstep
      split at hstep <;> cases hstep
      exact .beside rfl rfl rfl rfl rfl
  | endpointDisconnected session perrno =>
      simp only [step] at hstep
      split at hstep <;> cases hstep
      exact .beside rfl rfl rfl rfl rfl
  | drainDiscovered =>
      simp only [step] at hstep
      split at hstep <;> cases hstep
      exact .collects rfl rfl rfl rfl
  | notifyDisconnected =>
      simp only [step] at hstep
      split at hstep <;> cases hstep
      exact .beside rfl rfl rfl rfl rfl
  | runDaemon =>
      simp only [step] at hstep
      split at hstep
      · rename_i hready
        cases hstep
        exact .apart rfl rfl rfl rfl (houtside hready.1)
      · cases hstep
  | serverSocketCallback =>
      simp only [step] at hstep
      split at hstep
      · rename_i hloop
        cases hstep
        exact .apart rfl rfl rfl rfl (houtside hloop)
      · cases hstep
  | timerExpires i =>
      simp only [step] at hstep
      split at hstep <;> cases hstep
      have haside := aside_peerTimerCallback w i
      exact .beside rfl rfl (inbox_peerTimerCallback w i)
        (congrArg (fun a => a.2.1) haside) (congrArg Prod.fst haside)
  | socketReady i revents calls =>
      simp only [step] at hstep
      split at hstep <;> cases hstep
      have haside := @aside_peerSocketCallback infoHash w i revents calls
      exact .beside rfl rfl (inbox_peerSocketCallback w i revents calls)
        (congrArg (fun a => a.2.1) haside) (congrArg Prod.fst haside)
  | turn calls =>
      simp only [step] at hstep
      split at hstep
      · exact turn_hands hstep
      · cases hstep

/-- What the manager holds: what is in the queue and what is in the cache. -/
def Holds (w : World) (held : List PeerContact) : Prop :=
  ∃ cached, w.cache.Represents cached ∧ held = w.discoveries ++ cached

/-- **Balance of a step.** What the manager held it still holds, but for the contact whose fate the step decides. -/
theorem Hands.balance (h : Hands w e w') {held : List PeerContact} (hheld : w.Holds held) :
    ∃ held', w'.Holds held' ∧ held.Perm ((w.fates e).map Prod.snd ++ held') := by
  obtain ⟨cached, hcached, rfl⟩ := hheld
  cases h with
  | apart _ hfates hinbox hcache _ =>
      refine ⟨_, ⟨cached, hcache ▸ hcached, rfl⟩, ?_⟩
      rw [hfates, show w'.discoveries = w.discoveries from congrArg Prod.fst hinbox]
      exact .rfl
  | collects he hinbox hcache _ =>
      subst he
      refine ⟨_, ⟨cached, hcache ▸ hcached, rfl⟩, ?_⟩
      rw [show w'.discoveries = w.discoveries from congrArg Prod.fst hinbox]
      exact .rfl
  | caches calls contact discoveries he hcontrol hdiscoveries hinbox hcache _ =>
      subst he
      have hfates : w.fates (.turn calls) = w.overwrites := by rw [fates, hcontrol]
      refine ⟨_, ⟨_, hcache ▸ hcached.push contact, rfl⟩, ?_⟩
      rw [hfates, hdiscoveries, show w'.discoveries = discoveries from congrArg Prod.fst hinbox, overwrites,
        BoundedDeque.push, hcached.size_eq]
      have hne : w.discoveries ≠ [] := hdiscoveries ▸ List.cons_ne_nil contact discoveries
      by_cases hroom : cached.length < 200
      · rw [if_pos (Or.inr hroom), if_pos hroom, List.map_nil, List.nil_append, List.cons_append,
          ← List.append_assoc]
        exact @List.perm_append_comm _ [contact] (discoveries ++ cached)
      · rw [if_neg (not_or.mpr ⟨hne, hroom⟩), if_neg hroom]
        cases cached with
        | nil => exact absurd (Nat.zero_lt_succ 199) hroom
        | cons first rest =>
            obtain ⟨cache, hpop, -⟩ := hcached.stalePop
            rw [hpop]
            calc contact :: (discoveries ++ first :: rest)
                _ ~ contact :: first :: (discoveries ++ rest) := .cons contact List.perm_middle
                _ ~ first :: contact :: (discoveries ++ rest) := .swap first contact _
                _ ~ first :: (discoveries ++ rest ++ [contact]) :=
                    .cons first (List.perm_append_singleton contact _).symm
                _ = first :: (discoveries ++ (rest ++ [contact])) := by rw [List.append_assoc]
  | schedules calls contact cache he hcontrol hpop hinbox hcache =>
      subst he
      have hfates : w.fates (.turn calls) = w.schedules := by rw [fates, hcontrol]
      rcases List.eq_nil_or_concat cached with rfl | ⟨front, last, rfl⟩
      · rw [hcached.freshPop_none] at hpop
        cases hpop
      · rw [List.concat_eq_append] at hcached ⊢
        obtain ⟨cache', hpop', hfront⟩ := hcached.freshPop
        rw [hpop] at hpop'
        cases hpop'
        refine ⟨_, ⟨front, hcache ▸ hfront, rfl⟩, ?_⟩
        rw [hfates, World.schedules, hpop, show w'.discoveries = w.discoveries from congrArg Prod.fst hinbox,
          ← List.append_assoc]
        exact List.perm_append_comm

end World

end TorrentEngine
