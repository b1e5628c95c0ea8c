import TorrentEngine.DiscoveryHandover
import TorrentEngine.TrackerOutbox

/-! The two loops taken in one step each. The tracker's model pushes the peers of a response onto a list at
once, and empties the list at once; that is what the steps of either thread do to the shared queue when the
other takes none between them. -/

open Transition

namespace TorrentEngine

open SpscQueue

namespace SpscQueue

variable {T : Type*} {Size : Nat} {s : State T Size} {behind ahead : Nat}

/-- A `push` fails only on a full queue. -/
theorem Coherent.push_full (hs : Coherent s behind ahead) {arg : T}
    (h : (pushStep s arg).2 = some false) : s.pushed.length = s.popped.length + Size := by
  have hat := hs.producer_at
  have hbehind := hs.behind_le
  have hroom := hs.room
  rw [pushStep] at h
  cases hp : s.producer with
  | reload val writeIndex nextWriteIndex =>
      rw [hp] at hat h
      dsimp only at h
      split at h
      · rename_i heq
        rwa [hat.2, hs.readIdx_eq, hs.nextIndex_eq_iff hs.popped_prefix.length_le (by omega)] at heq
      · cases h
  | idle =>
      rw [hp] at h
      dsimp only at h
      split at h <;> cases h
  | copy val writeIndex nextWriteIndex =>
      rw [hp] at h
      cases h
  | publish val nextWriteIndex =>
      rw [hp] at h
      cases h

/-- A `push` succeeds only where there is room. -/
theorem Coherent.push_room (hs : Coherent s behind ahead) {arg : T} (h : (pushStep s arg).2 = some true) :
    s.pushed.length < s.popped.length + Size := by
  have hat := hs.producer_at
  have hbehind := hs.behind_le
  rw [pushStep] at h
  cases hp : s.producer with
  | publish val nextWriteIndex =>
      rw [hp] at hat
      have hlt := hat.2.1
      omega
  | reload val writeIndex nextWriteIndex =>
      rw [hp] at h
      dsimp only at h
      split at h <;> cases h
  | idle =>
      rw [hp] at h
      dsimp only at h
      split at h <;> cases h
  | copy val writeIndex nextWriteIndex =>
      rw [hp] at h
      cases h

end SpscQueue

namespace Handover

section Alone

variable {T : Type*} {Size : Nat}

/-- The values pushed and not popped. -/
def outstanding (h : Handover T Size) : List T := h.queue.pushed.drop h.queue.popped.length

/-- `queue.push`, taken in one step, and whether the consumer is to be notified. -/
def pushed (Size : Nat) (queued : List T × Bool) (contact : T) : List T × Bool :=
  if queued.1.length < Size then (queued.1 ++ [contact], true) else queued

theorem pushed_of_lt {queued : List T × Bool} (h : queued.1.length < Size) (contact : T) :
    pushed Size queued contact = (queued.1 ++ [contact], true) := if_pos h

theorem pushed_of_not_lt {queued : List T × Bool} (h : ¬ queued.1.length < Size) (contact : T) :
    pushed Size queued contact = queued := if_neg h

/-- The handler has these endpoints left, and the queue and the flag are these. -/
structure Left (h : Handover T Size) (left : List T) (queued : List T × Bool) (h' : Handover T Size) :
    Prop where
  handler_eq : h'.handler = .pushing left queued.2
  outstanding_eq : h'.outstanding = queued.1
  popped_eq : h'.queue.popped = h.queue.popped
  sent_eq : h'.sent = h.sent
  pending_eq : h'.pending = h.pending
  draining_eq : h'.draining = h.draining
  announced_eq : h'.announced = h.announced

theorem Left.trans {h h' h'' : Handover T Size} {left left' : List T} {queued queued' : List T × Bool}
    (hl : Left h left queued h') (hl' : Left h' left' queued' h'') : Left h left' queued' h'' where
  handler_eq := hl'.handler_eq
  outstanding_eq := hl'.outstanding_eq
  popped_eq := hl'.popped_eq.trans hl.popped_eq
  sent_eq := hl'.sent_eq.trans hl.sent_eq
  pending_eq := hl'.pending_eq.trans hl.pending_eq
  draining_eq := hl'.draining_eq.trans hl.draining_eq
  announced_eq := hl'.announced_eq.trans hl.announced_eq

/-- One step of the handler: the push goes on, or it has been done. -/
theorem produce_once {h : Handover T Size} (hs : Sound h) {contact : T} {left : List T}
    {notifyConsumer : Bool} (hh : h.handler = .pushing (contact :: left) notifyConsumer) :
    ∃ h', produce h = some h' ∧
      ((Left h (contact :: left) (h.outstanding, notifyConsumer) h' ∧
          h.queue.producer.stage < h'.queue.producer.stage) ∨
        Left h left (pushed Size (h.outstanding, notifyConsumer) contact) h') := by
  obtain ⟨queue, handler, sent, pending, draining, announced⟩ := h
  dsimp only at hh
  subst hh
  obtain ⟨behind, ahead, hcoherent⟩ := hs.coherent
  have hvalue : queue.producer.valueOr contact = contact := hs.value_eq contact rfl
  have hle := hcoherent.popped_prefix.length_le
  have hfull := @Coherent.push_full _ _ _ _ _ hcoherent contact
  have hroom := @Coherent.push_room _ _ _ _ _ hcoherent contact
  have hspec := pushStep_spec queue contact
  simp only [produce]
  dsimp only at hfull hroom hle
  generalize pushStep queue contact = result at hspec hfull hroom
  cases hspec with
  | under hpushed hpopped _ hstage _ =>
      refine ⟨_, rfl, Or.inl ⟨⟨rfl, ?_, hpopped, rfl, rfl, rfl, rfl⟩, hstage⟩⟩
      simp only [outstanding, hpushed, hpopped]
  | full hpushed hpopped _ _ =>
      have hlength := hfull rfl
      have hno : ¬ (queue.pushed.drop queue.popped.length).length < Size := by
        rw [List.length_drop]
        omega
      refine ⟨_, rfl, Or.inr ?_⟩
      rw [outstanding, pushed_of_not_lt hno]
      refine ⟨rfl, ?_, hpopped, rfl, rfl, rfl, rfl⟩
      simp only [outstanding, hpushed, hpopped]
  | pushed hpushed hpopped _ _ =>
      have hlength := hroom rfl
      have hyes : (queue.pushed.drop queue.popped.length).length < Size := by
        rw [List.length_drop]
        omega
      refine ⟨_, rfl, Or.inr ?_⟩
      rw [outstanding, pushed_of_lt hyes]
      refine ⟨rfl, ?_, hpopped, rfl, rfl, rfl, rfl⟩
      simp only [outstanding, hpushed, hpopped, hvalue]
      exact List.drop_append_of_le_length hle

theorem run_produce {h h' : Handover T Size} (hstep : produce h = some h') :
    (machine T Size).Run h (List.replicate 1 .produce) h' :=
  .snoc (.refl h) hstep

/-- A push comes to its end, and is done in one go. -/
theorem produce_contact (m : Nat) {h : Handover T Size} (hs : Sound h) {contact : T} {left : List T}
    {notifyConsumer : Bool} (hh : h.handler = .pushing (contact :: left) notifyConsumer)
    (hm : 3 - h.queue.producer.stage ≤ m) :
    ∃ n h', (machine T Size).Run h (List.replicate n .produce) h' ∧
      Left h left (pushed Size (h.outstanding, notifyConsumer) contact) h' := by
  induction m generalizing h with
  | zero =>
      obtain ⟨h', hstep, ⟨-, hstage⟩ | hdone⟩ := produce_once hs hh
      · have hle := h'.queue.producer.stage_le
        omega
      · exact ⟨1, h', run_produce hstep, hdone⟩
  | succ m ih =>
      obtain ⟨h', hstep, ⟨hunder, hstage⟩ | hdone⟩ := produce_once hs hh
      · obtain ⟨n, h'', hrun, hdone⟩ := ih (hs.produce hstep) hunder.handler_eq (by omega)
        rw [hunder.outstanding_eq] at hdone
        refine ⟨1 + n, h'', ?_, hunder.trans hdone⟩
        rw [List.replicate_add]
        exact (run_produce hstep).append hrun
      · exact ⟨1, h', run_produce hstep, hdone⟩

/-- The loop of the handler, with no step of the consumer in it. -/
theorem produce_contacts (contacts : List T) {h : Handover T Size} (hs : Sound h) {notifyConsumer : Bool}
    (hh : h.handler = .pushing contacts notifyConsumer) :
    ∃ n h', (machine T Size).Run h (List.replicate n .produce) h' ∧
      Left h [] (contacts.foldl (pushed Size) (h.outstanding, notifyConsumer)) h' := by
  induction contacts generalizing h notifyConsumer with
  | nil => exact ⟨0, h, .refl h, ⟨hh, rfl, rfl, rfl, rfl, rfl, rfl⟩⟩
  | cons contact contacts ih =>
      obtain ⟨n, h', hrun, hfirst⟩ := produce_contact 3 hs hh (Nat.sub_le _ _)
      have hs' : Sound h' := hs.run hrun
      obtain ⟨n', h'', hrun', hrest⟩ := ih hs' hfirst.handler_eq
      refine ⟨n + n', h'', ?_, ?_⟩
      · rw [List.replicate_add]
        exact hrun.append hrun'
      · rw [hfirst.outstanding_eq] at hrest
        exact hfirst.trans hrest

/-- **The handler alone does what its loop does in one step.** -/
theorem announce_alone (contacts : List T) {h : Handover T Size} (hs : Sound h) (hh : h.handler = .outside) :
    ∃ n h', (machine T Size).Run h (.announce contacts :: List.replicate n .produce) h' ∧
      h'.handler = .outside ∧ h'.queue.popped = h.queue.popped ∧
      h'.outstanding = (contacts.foldl (pushed Size) (h.outstanding, false)).1 ∧
      h'.sent = ((contacts.foldl (pushed Size) (h.outstanding, false)).2 || h.sent) ∧
      h'.pending = h.pending ∧ h'.draining = h.draining ∧ h'.announced = h.announced ++ contacts := by
  have hstep : step h (.announce contacts) =
      some { h with handler := .pushing contacts false, announced := h.announced ++ contacts } := by
    rw [step, hh]
  obtain ⟨n, h', hrun, hleft⟩ := produce_contacts contacts (hs.step hstep) rfl
  obtain ⟨h'', hlast, hhandler, hqueue, hsent, hpending, hdraining, hannounced⟩ :
      ∃ h'', produce h' = some h'' ∧ h''.handler = .outside ∧ h''.queue = h'.queue ∧
        h''.sent = ((contacts.foldl (pushed Size) (h.outstanding, false)).2 || h'.sent) ∧
        h''.pending = h'.pending ∧ h''.draining = h'.draining ∧ h''.announced = h'.announced := by
    rw [produce, hleft.handler_eq]
    exact ⟨_, rfl, rfl, rfl, rfl, rfl, rfl, rfl⟩
  refine ⟨n + 1, h'', ?_, hhandler, ?_, ?_, ?_, hpending.trans hleft.pending_eq,
    hdraining.trans hleft.draining_eq, hannounced.trans hleft.announced_eq⟩
  · have hfirst : (machine T Size).Run h [.announce contacts] _ := .snoc (.refl h) hstep
    rw [List.replicate_succ', ← List.cons_append, ← List.singleton_append]
    exact .snoc (hfirst.append hrun) hlast
  · rw [hqueue, hleft.popped_eq]
  · rw [outstanding, hqueue]
    exact hleft.outstanding_eq
  · rw [hsent, hleft.sent_eq]

/-- The drain leaves alone what the handler does, and the signal. -/
structure Drains (h h' : Handover T Size) : Prop where
  pushed_eq : h'.queue.pushed = h.queue.pushed
  handler_eq : h'.handler = h.handler
  sent_eq : h'.sent = h.sent
  pending_eq : h'.pending = h.pending
  announced_eq : h'.announced = h.announced

theorem Drains.trans {h h' h'' : Handover T Size} (hd : Drains h h') (hd' : Drains h' h'') : Drains h h'' where
  pushed_eq := hd'.pushed_eq.trans hd.pushed_eq
  handler_eq := hd'.handler_eq.trans hd.handler_eq
  sent_eq := hd'.sent_eq.trans hd.sent_eq
  pending_eq := hd'.pending_eq.trans hd.pending_eq
  announced_eq := hd'.announced_eq.trans hd.announced_eq

/-- One step of the drain: it goes on, or the queue was empty. -/
theorem consume_once {h : Handover T Size} (hs : Sound h) (hdraining : h.draining = true) (residue : T) :
    ∃ h', consume h residue = some h' ∧ Drains h h' ∧
      (h'.draining = true ∨ h'.draining = false ∧ h'.queue.popped = h.queue.pushed) := by
  obtain ⟨queue, handler, sent, pending, draining, announced⟩ := h
  dsimp only at hdraining
  subst hdraining
  obtain ⟨behind, ahead, hcoherent⟩ := hs.coherent
  have hempty := @Coherent.pop_empty _ _ _ _ _ hcoherent residue
  have hspec := popStep_spec queue residue
  simp only [consume, if_pos]
  dsimp only at hempty
  generalize popStep queue residue = result at hspec hempty
  cases hspec with
  | under hpushed _ _ _ => exact ⟨_, rfl, ⟨hpushed, rfl, rfl, rfl, rfl⟩, Or.inl rfl⟩
  | popped hpushed _ _ _ _ => exact ⟨_, rfl, ⟨hpushed, rfl, rfl, rfl, rfl⟩, Or.inl rfl⟩
  | empty hpushed hpopped _ _ _ =>
      have hall := hcoherent.popped_prefix.eq_of_length_le (le_of_eq (hempty rfl).symm)
      exact ⟨_, rfl, ⟨hpushed, rfl, rfl, rfl, rfl⟩, Or.inr ⟨rfl, hpopped.trans hall⟩⟩

/-- `drain_discovered`, with no step of the handler in it. -/
theorem consume_all {h : Handover T Size} (hs : Sound h) (hdraining : h.draining = true) :
    ∃ es h', (machine T Size).Run h es h' ∧ Drains h h' ∧ h'.queue.popped = h.queue.pushed ∧
      h'.draining = false := by
  induction hrank : rank h using Nat.strongRecOn generalizing h with
  | ind m ih =>
      subst hrank
      let residue := h.queue.queue 0
      obtain ⟨h', hstep, hdrains, hdone⟩ := consume_once hs hdraining residue
      have hfirst : (machine T Size).Run h [.consume residue] h' := .snoc (.refl h) hstep
      rcases hdone with hmore | ⟨hdone, hpopped⟩
      · obtain ⟨es, h'', hrun, hdrains', hpopped, hdone⟩ :=
          ih (rank h') (consume_rank hs hstep) (hs.consume hstep) hmore rfl
        exact ⟨_, h'', hfirst.append hrun, hdrains.trans hdrains', hpopped.trans hdrains.pushed_eq, hdone⟩
      · exact ⟨_, h', hfirst, hdrains, hpopped, hdone⟩

/-- A signal that was sent is taken, and the callback empties the queue. -/
theorem drain_alone {h : Handover T Size} (hs : Sound h) (hsent : h.sent = true)
    (hdraining : h.draining = false) :
    ∃ es h', (machine T Size).Run h es h' ∧ h'.queue.popped = h.queue.pushed ∧ h'.outstanding = [] ∧
      h'.handler = h.handler ∧ h'.sent = false ∧ h'.pending = false ∧ h'.draining = false ∧
      h'.announced = h.announced := by
  have hcollect : step h .collect = some { h with sent := false, pending := true } :=
    if_pos ⟨hsent, by rw [hdraining]; exact Bool.false_ne_true⟩
  have hcallback : step { h with sent := false, pending := true } .callback =
      some { h with sent := false, pending := false, draining := true } :=
    if_pos ⟨rfl, by rw [hdraining]; exact Bool.false_ne_true⟩
  have hs' := (hs.step hcollect).step hcallback
  obtain ⟨es, h', hrun, hdrains, hpopped, hdone⟩ := consume_all hs' rfl
  have hfirst : (machine T Size).Run h ([.collect] ++ [.callback]) _ :=
    .snoc (.snoc (.refl h) hcollect) hcallback
  refine ⟨_, h', hfirst.append hrun, hpopped, ?_, hdrains.handler_eq, hdrains.sent_eq, hdrains.pending_eq,
    hdone, hdrains.announced_eq⟩
  rw [outstanding, hdrains.pushed_eq, hpopped]
  exact List.drop_length

end Alone

/-! ### The queue of the tracker's model -/

open Tracker

/-- The tracker's model of the queue and its signal, between two callbacks of either loop. -/
structure Matches (manager : TrackerManager) (h : Handover PeerContact discoveriesCapacity) : Prop where
  handler_eq : h.handler = .outside
  discoveries_eq : h.outstanding = manager.discoveries
  sent_eq : h.sent = manager.consumerSignalled
  pending_eq : h.pending = false
  draining_eq : h.draining = false

section Matching

variable {manager : TrackerManager} {h : Handover PeerContact discoveriesCapacity}

theorem Matches.congr {manager' : TrackerManager} (hm : Matches manager h)
    (houtbox : manager'.outbox = manager.outbox) : Matches manager' h := by
  obtain ⟨hdiscoveries, hsignalled⟩ := Prod.mk.inj houtbox
  exact ⟨hm.handler_eq, hm.discoveries_eq.trans hdiscoveries.symm, hm.sent_eq.trans hsignalled.symm,
    hm.pending_eq, hm.draining_eq⟩

/-- The endpoints of a response, pushed onto the list at once. -/
theorem Matches.announce (hm : Matches manager h) (hs : Sound h) (contacts : List PeerContact) :
    ∃ es h', (machine PeerContact discoveriesCapacity).Run h es h' ∧
      h'.announced = h.announced ++ contacts ∧ h'.queue.popped = h.queue.popped ∧
      Matches { manager with
        discoveries := (contacts.foldl pushDiscovery (manager.discoveries, false)).1
        consumerSignalled := (contacts.foldl pushDiscovery (manager.discoveries, false)).2 ||
          manager.consumerSignalled } h' := by
  obtain ⟨n, h', hrun, hhandler, hpopped, houtstanding, hsent, hpending, hdraining, hannounced⟩ :=
    announce_alone contacts hs hm.handler_eq
  rw [hm.discoveries_eq] at houtstanding hsent
  rw [hm.sent_eq] at hsent
  exact ⟨_, h', hrun, hannounced, hpopped, hhandler, houtstanding, hsent, hpending.trans hm.pending_eq,
    hdraining.trans hm.draining_eq⟩

theorem Matches.activeStateHandler {env : TrackerEnvironment} {this : ByteString} {tracker : Tracker}
    {parse : Bencode.Dictionary} {result : TrackerManager × Tracker} (hm : Matches manager h) (hs : Sound h)
    (hresult : Tracker.activeStateHandler env this manager tracker parse = .ok result) :
    ∃ es h', (machine PeerContact discoveriesCapacity).Run h es h' ∧
      h'.announced = h.announced ++ responsePeers env parse ∧ h'.queue.popped = h.queue.popped ∧
      Matches result.1 h' := by
  rw [Tracker.activeStateHandler] at hresult
  obtain ⟨⟨tracker₃, queued⟩, hread, hrest⟩ := Except.bind_eq_ok.mp hresult
  obtain ⟨_, _, -, -, -, hpush⟩ := readResponse_eq_ok.mp hread
  obtain ⟨es, h', hrun, hannounced, hpopped, hmatches⟩ := hm.announce hs (responsePeers env parse)
  rw [← pushPeers_response hpush] at hmatches
  refine ⟨es, h', hrun, hannounced, hpopped, ?_⟩
  cases queued with
  | none =>
      cases hrest
      exact hmatches
  | some queued =>
      cases hrest
      exact hmatches.congr (TrackerManager.outbox_finish _ _ _)

/-- **The tracker's model of the queue is refined by the queue of atomic accesses.** A response handled in one
step there, and the queue emptied in one step, are each done by steps of the threads from every state that
matches, to one that matches again. The first announces the contacts that the response names, and what has been
drained stays as it was; the second announces nothing, and what has been drained grows by all that lay in the
queue. -/
theorem tracker_queue_refined {env : TrackerEnvironment} {this : ByteString} {tracker : Tracker}
    (hreach : (machine PeerContact discoveriesCapacity).Reachable h) (hm : Matches manager h) :
    (∀ manager', TrackerManager.doOnSuccess env this manager tracker = .ok manager' →
      ∃ es h', (machine PeerContact discoveriesCapacity).Run h es h' ∧
        h'.announced = h.announced ++ contactsIn env tracker.data ∧
        h'.queue.popped = h.queue.popped ∧ Matches manager' h') ∧
    (manager.consumerSignalled = true →
      ∃ es h', (machine PeerContact discoveriesCapacity).Run h es h' ∧ h'.announced = h.announced ∧
        h'.queue.popped = h.queue.popped ++ manager.discoveries ∧
        Matches { manager with discoveries := [], consumerSignalled := false } h') := by
  have hs := reachable_sound hreach
  constructor
  · intro manager' hresult
    rcases TrackerManager.doOnSuccess_outbox hresult with
      ⟨hnone, houtbox⟩ | ⟨parse, tracker', result, hnamed, hactive, houtbox⟩
    · rw [hnone]
      exact ⟨[], h, .refl h, (List.append_nil _).symm, rfl, hm.congr houtbox⟩
    · rw [hnamed]
      obtain ⟨es, h', hrun, hannounced, hpopped, hmatches⟩ := hm.activeStateHandler hs hactive
      exact ⟨es, h', hrun, hannounced, hpopped, hmatches.congr houtbox⟩
  · intro hsignalled
    obtain ⟨behind, ahead, hcoherent⟩ := hs.coherent
    obtain ⟨es, h', hrun, hpopped, houtstanding, hhandler, hsent, hpending, hdraining, hannounced⟩ :=
      drain_alone hs (hm.sent_eq.trans hsignalled) hm.draining_eq
    refine ⟨es, h', hrun, hannounced, ?_, hhandler.trans hm.handler_eq, houtstanding, hsent, hpending,
      hdraining⟩
    obtain ⟨rest, hrest⟩ := hcoherent.popped_prefix
    rw [hpopped, ← hm.discoveries_eq, outstanding, ← hrest, List.drop_left]

end Matching

theorem announcedManager_matches (body : List Char) :
    Matches (announcedManager body) (initial discoveriesCapacity fun _ => PeerContact.fresh) :=
  ⟨rfl, rfl, rfl, rfl, rfl⟩

/-- The one peer of a response is announced, pushed and then popped. -/
theorem tracker_queue_refined_onePeer : ∃ contact es h',
    contactsIn plainEnvironment (announcedTracker onePeer).data = [contact] ∧
      (machine PeerContact discoveriesCapacity).Run
        (initial discoveriesCapacity fun _ => PeerContact.fresh) es h' ∧
      h'.announced = [contact] ∧ h'.queue.popped = [contact] ∧ h'.outstanding = [] := by
  have hreach : (machine PeerContact discoveriesCapacity).Reachable
      (initial discoveriesCapacity fun _ => PeerContact.fresh) := Machine.Reachable.init ⟨_, rfl⟩
  obtain ⟨contact, hcontact, houtbox⟩ : ∃ contact,
      contactsIn plainEnvironment (announcedTracker onePeer).data = [contact] ∧
        (respond onePeer).map TrackerManager.outbox = .ok ([contact], true) := ⟨_, rfl, rfl⟩
  cases hresult : respond onePeer with
  | error fault =>
      rw [hresult] at houtbox
      cases houtbox
  | ok manager =>
      rw [hresult] at houtbox
      obtain ⟨hdiscoveries, hsignalled⟩ := Prod.mk.inj (Except.ok.inj houtbox)
      obtain ⟨es, h, hrun, hannounced, hpopped, hmatches⟩ :=
        (tracker_queue_refined hreach (announcedManager_matches onePeer)).1 manager hresult
      obtain ⟨es', h', hrun', hannounced', hpopped', hmatches'⟩ :=
        (@tracker_queue_refined manager h plainEnvironment trackerName (announcedTracker onePeer)
          (hrun.reachable hreach) hmatches).2 hsignalled
      refine ⟨contact, es ++ es', h', hcontact, hrun.append hrun', ?_, ?_, hmatches'.discoveries_eq⟩
      · rw [hannounced', hannounced, hcontact]
        rfl
      · rw [hpopped', hpopped, hdiscoveries]
        rfl

end Handover

end TorrentEngine
