import TorrentEngine.PeerCounters

/-! What is handed to the transfer side and what comes back: no connect update is lost, because the quota
bounds the updates that are under way; and who records a descriptor when. -/

open Transition

namespace TorrentEngine

open PeerConnection

namespace Ledger

variable {v v' : Ledger} {i : ConnectionSlot} {m : Move} {infoHash : Vector Byte 20}

/-! ### Updates under way -/

/-- The updates and sessions between a dispatch and the drain of its disconnect update. -/
def pending (v : Ledger) : Nat := v.connects.length + v.sessions.length + v.disconnects.length

/-- What a move does to the updates under way and to the counter of connected peers. -/
inductive Delivers (v : Ledger) (m : Move) (v' : Ledger) : Prop
  | nothing : v'.pending ≤ v.pending →
      v'.statistics.connectedBittorrentPeers = v.statistics.connectedBittorrentPeers →
      v'.dispatched = v.dispatched → Delivers v m v'
  | connect (i : ConnectionSlot) : m = .dispatch i → v'.pending ≤ v.pending + 1 →
      v'.statistics.connectedBittorrentPeers = SizeT.inc v.statistics.connectedBittorrentPeers →
      (v.connects.length < 50 → v'.connects = v.connects ++ [⟨i, (v'.object i).tcp.socket, v'.generation i⟩]) →
      (v'.object i).state = .connected → Delivers v m v'
  | disconnect : v'.pending + 1 = v.pending →
      v'.statistics.connectedBittorrentPeers = SizeT.dec v.statistics.connectedBittorrentPeers →
      v'.dispatched = v.dispatched → Delivers v m v'

theorem Step.delivers (hstep : Step infoHash v m v') : Delivers v m v' := by
  cases m with
  | quiet =>
      cases hstep
      exact .nothing le_rfl rfl rfl
  | setEndpoint =>
      obtain ⟨u, us, hconnects, rfl⟩ := hstep
      refine .nothing ?_ rfl rfl
      simp only [pending, hconnects, List.length_cons, List.length_append, List.length_nil]
      omega
  | endSession =>
      obtain ⟨k, s, ds, hs, hds, rfl⟩ := hstep
      refine .nothing ?_ rfl rfl
      have hk : k < v.sessions.length := (List.getElem?_eq_some_iff.mp hs).1
      have herase : (v.sessions.eraseIdx k).length + 1 = v.sessions.length :=
        List.length_eraseIdx_add_one hk
      have hlength : ds.length ≤ v.disconnects.length + 1 := by
        rcases hds with rfl | ⟨perrno, rfl⟩
        · exact Nat.le_succ _
        · rw [List.length_append, List.length_singleton]
      simp only [pending]
      omega
  | dropDisconnect =>
      obtain ⟨d, ds, hdisconnects, -, rfl⟩ := hstep
      refine .nothing ?_ rfl rfl
      simp only [pending, hdisconnects, List.length_cons]
      omega
  | dropRetry =>
      obtain ⟨r, rs, -, -, rfl⟩ := hstep
      exact .nothing le_rfl rfl rfl
  | recycle i =>
      obtain ⟨-, p, n, -, -, -, rfl⟩ := hstep
      exact .nothing le_rfl rfl rfl
  | discover i immediate =>
      obtain ⟨-, -, p, fd, -, -, -, rfl⟩ := hstep
      exact .nothing le_rfl rfl rfl
  | retry i immediate =>
      obtain ⟨-, -, p, fd, rs, -, -, -, -, rfl⟩ := hstep
      exact .nothing le_rfl rfl rfl
  | abandon i =>
      obtain ⟨-, -, p, rs, -, -, -, rfl⟩ := hstep
      exact .nothing le_rfl rfl rfl
  | accept i =>
      obtain ⟨-, p, fd, -, -, -, rfl⟩ := hstep
      exact .nothing le_rfl rfl rfl
  | replace i =>
      obtain ⟨-, p, -, ⟨-, -, rfl⟩ | ⟨-, -, rfl⟩⟩ := hstep
      · exact .nothing le_rfl (connected_singleResolved _ _) rfl
      · exact .nothing le_rfl rfl rfl
  | disconnect i =>
      obtain ⟨-, -, p, d, ds, -, -, hdisconnects, -, -, rfl⟩ := hstep
      refine .disconnect ?_ rfl rfl
      simp only [pending, vacate, hdisconnects, List.length_cons]
      omega
  | progress i =>
      obtain ⟨-, -, p, kernel, -, -, -, rfl, -⟩ := hstep
      exact .nothing le_rfl rfl rfl
  | fail i =>
      obtain ⟨-, -, -, p, -, -, rfl⟩ := hstep
      exact .nothing le_rfl rfl rfl
  | discard i =>
      obtain ⟨-, -, p, -, -, rfl⟩ := hstep
      exact .nothing le_rfl (connected_singleResolved _ _) rfl
  | dispatch i =>
      obtain ⟨-, -, p, kernel, cs, hp, -, -, hcs, -, rfl⟩ := hstep
      have hobject : Function.update v.object i p i = p := Function.update_self _ _ _
      refine .connect i rfl ?_ (connected_singleResolved _ _) (fun hroom => ?_) ?_
      · have hlength : cs.length ≤ v.connects.length + 1 := by
          rcases hcs with ⟨-, rfl⟩ | rfl
          · exact Nat.le_succ _
          · rw [List.length_append, List.length_singleton]
        simp only [pending, set]
        omega
      · rcases hcs with ⟨hfull, -⟩ | rfl
        · exact absurd hroom (Nat.not_lt.mpr hfull)
        · simp only [set, hobject]
      · simp only [set, hobject]
        exact hp.state
  | requeue i =>
      obtain ⟨-, -, p, -, -, rfl⟩ := hstep
      exact .nothing le_rfl rfl rfl

/-- Only a dispatch marks a peer connected. -/
theorem Delivers.dispatched_eq (h : Delivers v m v') (hnot : ∀ i, m ≠ .dispatch i) :
    v'.dispatched = v.dispatched := by
  cases h with
  | nothing _ _ hsame => exact hsame
  | connect i hi => exact absurd hi (hnot i)
  | disconnect _ _ hsame => exact hsame

/-! ### Who records a descriptor -/

/-- A slot records the socket of a peer in flight, or one whose connect update is not popped yet. -/
def Recording (v : Ledger) (i : ConnectionSlot) (fd : Fd) : Prop :=
  (v.object i).InFlight ∨ ∃ generation, ⟨i, some fd, generation⟩ ∈ v.connects

def HandedOver (v : Ledger) : Prop := ∀ i fd, (v.object i).tcp.socket = some fd → v.Recording i fd

/-- A move about one slot that pops no connect update. -/
theorem HandedOver.slot (h : HandedOver v) (hstep : Step infoHash v m v') (hslot : m.slot = some i)
    {p : PeerConnection} (hobject : v'.object i = p) (hconnects : ∀ u ∈ v.connects, u ∈ v'.connects)
    (hi : ∀ fd, p.tcp.socket = some fd →
      p.InFlight ∨ ∃ generation, ⟨i, some fd, generation⟩ ∈ v'.connects) : HandedOver v' := by
  subst hobject
  intro j fd hfd
  by_cases hji : j = i
  · subst hji
    exact hi fd hfd
  · have hobject : v'.object j = v.object j := (hstep.sameSlot_of_ne hslot hji).object
    rw [hobject] at hfd
    rcases h j fd hfd with hflight | ⟨generation, hu⟩
    · refine Or.inl ?_
      rw [hobject]
      exact hflight
    · exact Or.inr ⟨generation, hconnects _ hu⟩

theorem HandedOver.same (h : HandedOver v) (hobject : v'.object = v.object)
    (hconnects : v'.connects = v.connects) : HandedOver v' := by
  intro i fd hfd
  rw [hobject] at hfd
  rw [Recording, hobject, hconnects]
  exact h i fd hfd

/-- A peer that was replaced or disconnected still records its socket, and its update may be under way. -/
theorem HandedOver.kept (h : HandedOver v) {p : PeerConnection}
    (hsocket : p.tcp.socket = (v.object i).tcp.socket) (hnot : ¬ (v.object i).InFlight) {fd : Fd}
    (hfd : p.tcp.socket = some fd) : ∃ generation, ⟨i, some fd, generation⟩ ∈ v.connects :=
  (h i fd (hsocket.symm.trans hfd)).resolve_left hnot

theorem Step.handedOver (hregistry : Registry v) (hstep : Step infoHash v m v')
    (hset : m = .setEndpoint → ∀ u us, v.connects = u :: us → (v.object u.peer).tcp.socket ≠ u.socket)
    (hroom : (∃ i, m = .dispatch i) → v.connects.length < 50) (h : HandedOver v) : HandedOver v' := by
  have hcopy := hstep
  cases m with
  | quiet =>
      cases hstep
      exact h
  | setEndpoint =>
      obtain ⟨u, us, hconnects, rfl⟩ := hstep
      intro i fd hfd
      rcases h i fd hfd with hflight | ⟨generation, hu⟩
      · exact Or.inl hflight
      · rw [hconnects] at hu
        rcases List.mem_cons.mp hu with hu | hu
        · subst hu
          exact absurd hfd (hset rfl _ us hconnects)
        · exact Or.inr ⟨generation, hu⟩
  | endSession =>
      obtain ⟨k, s, ds, -, -, rfl⟩ := hstep
      exact h.same rfl rfl
  | dropDisconnect =>
      obtain ⟨d, ds, -, -, rfl⟩ := hstep
      exact h.same rfl rfl
  | dropRetry =>
      obtain ⟨r, rs, -, -, rfl⟩ := hstep
      exact h.same rfl rfl
  | recycle i =>
      obtain ⟨hi, p, n, hp, hsocket, -, rfl⟩ := hstep
      refine h.slot hcopy rfl (Function.update_self _ _ _) (fun _ => id) fun fd hfd =>
        Or.inr (h.kept hsocket ?_ hfd)
      exact Registry.not_inFlight_of_vacant (hregistry.registered.vacant i hi)
  | discover i immediate =>
      obtain ⟨-, -, p, fd, hp, -, -, rfl⟩ := hstep
      exact h.slot hcopy rfl (Function.update_self _ _ _) (fun _ => id) fun _ _ => Or.inl hp.inFlight
  | retry i immediate =>
      obtain ⟨-, -, p, fd, rs, hp, -, -, -, rfl⟩ := hstep
      exact h.slot hcopy rfl (Function.update_self _ _ _) (fun _ => id) fun _ _ => Or.inl hp.inFlight
  | abandon i =>
      obtain ⟨-, -, p, rs, -, hsocket, -, rfl⟩ := hstep
      exact h.slot hcopy rfl (Function.update_self _ _ _) (fun _ => id) fun fd hfd =>
        absurd (hsocket.symm.trans hfd) (Option.some_ne_none fd).symm
  | accept i =>
      obtain ⟨-, p, fd, hp, -, -, rfl⟩ := hstep
      exact h.slot hcopy rfl (Function.update_self _ _ _) (fun _ => id) fun _ _ => Or.inl hp.inFlight
  | replace i =>
      obtain ⟨-, p, -, ⟨-, hsocket, rfl⟩ | ⟨hstate, hsocket, rfl⟩⟩ := hstep
      · exact h.slot hcopy rfl (Function.update_self _ _ _) (fun _ => id) fun fd hfd =>
          absurd (hsocket.symm.trans hfd) (Option.some_ne_none fd).symm
      · refine h.slot hcopy rfl (Function.update_self _ _ _) (fun _ => id) fun fd hfd =>
          Or.inr (h.kept hsocket ?_ hfd)
        intro hflight
        rcases hflight.state with hs | hs <;> rw [hstate] at hs <;> cases hs
  | disconnect i =>
      obtain ⟨-, hconnected, p, d, ds, -, hsocket, -, -, -, rfl⟩ := hstep
      exact h.slot hcopy rfl (Function.update_self _ _ _) (fun _ => id) fun fd hfd =>
        Or.inr (h.kept hsocket (fun hflight => hflight.not_connected hconnected) hfd)
  | progress i =>
      obtain ⟨-, -, p, kernel, hp, -, -, rfl, -⟩ := hstep
      exact h.slot hcopy rfl (Function.update_self _ _ _) (fun _ => id) fun _ _ => Or.inl hp
  | fail i =>
      obtain ⟨-, -, -, p, hp, -, rfl⟩ := hstep
      exact h.slot hcopy rfl (Function.update_self _ _ _) (fun _ => id) fun fd hfd =>
        absurd (hp.socket.symm.trans hfd) (Option.some_ne_none fd).symm
  | discard i =>
      obtain ⟨-, -, p, -, hsocket, rfl⟩ := hstep
      exact h.slot hcopy rfl (Function.update_self _ _ _) (fun _ => id) fun fd hfd =>
        absurd (hsocket.symm.trans hfd) (Option.some_ne_none fd).symm
  | dispatch i =>
      obtain ⟨-, -, p, kernel, cs, -, -, -, hcs, -, rfl⟩ := hstep
      rcases hcs with ⟨hfull, -⟩ | rfl
      · exact absurd (hroom ⟨i, rfl⟩) (Nat.not_lt.mpr hfull)
      · refine h.slot hcopy rfl (Function.update_self _ _ _)
          (fun u hu => List.mem_append_left _ hu) fun fd hfd => Or.inr ⟨v.generation i, ?_⟩
        rw [← hfd]
        exact List.mem_append_right _ List.mem_cons_self
  | requeue i =>
      obtain ⟨-, -, p, hp, -, rfl⟩ := hstep
      exact h.slot hcopy rfl (Function.update_self _ _ _) (fun _ => id) fun fd hfd =>
        absurd (hp.socket.symm.trans hfd) (Option.some_ne_none fd).symm

end Ledger

namespace World

open Ledger

variable {w w' : World} {e : Event} {infoHash : Vector Byte 20}

theorem of_hasMetConnectionQuota {s : ConnectionStatistics} (h : s.hasMetConnectionQuota = false) :
    s.connectedBittorrentPeers < 50 := by
  rw [ConnectionStatistics.hasMetConnectionQuota, Bool.not_eq_false', decide_eq_true_iff] at h
  exact h

theorem pending_le (h : (managerMachine infoHash).Reachable w) :
    w.ledger.pending ≤ w.statistics.connectedBittorrentPeers ∧
      w.statistics.connectedBittorrentPeers ≤ 50 := by
  let I (v : Ledger) : Prop := v.pending ≤ v.statistics.connectedBittorrentPeers ∧
    v.statistics.connectedBittorrentPeers ≤ 50
  have hother : ∀ {v m v'}, Step infoHash v m v' → (∀ i, m ≠ .dispatch i) → I v → I v' := by
    intro v m v' hm hnot ⟨hpending, hquota⟩
    cases hm.delivers with
    | nothing hless hsame _ => exact ⟨by omega, by omega⟩
    | connect i hi _ _ _ _ => exact absurd hi (hnot i)
    | disconnect hless hdec _ =>
        rw [SizeT.dec_of_pos (by omega) (by omega)] at hdec
        exact ⟨by omega, by omega⟩
  refine ledger_invariant I ⟨le_rfl, Nat.zero_le _⟩ ?_ ?_ h
  · intro w e m v' _ hI _ hcauses hm
    by_cases hdispatch : ∃ i, m = .dispatch i
    · obtain ⟨i, rfl⟩ := hdispatch
      have hquota : w.statistics.connectedBittorrentPeers < 50 := of_hasMetConnectionQuota hcauses
      have hstat : w.ledger.pending ≤ w.statistics.connectedBittorrentPeers := hI.1
      cases hm.delivers with
      | nothing hless hsame _ =>
          have hsame' : v'.statistics.connectedBittorrentPeers = w.statistics.connectedBittorrentPeers :=
            hsame
          exact ⟨by omega, by omega⟩
      | connect i _ hless hinc _ _ =>
          have hinc' : v'.statistics.connectedBittorrentPeers =
              SizeT.inc w.statistics.connectedBittorrentPeers := hinc
          rw [SizeT.inc_of_lt (by omega)] at hinc'
          exact ⟨by omega, by omega⟩
      | disconnect hless hdec _ =>
          have hdec' : v'.statistics.connectedBittorrentPeers =
              SizeT.dec w.statistics.connectedBittorrentPeers := hdec
          rw [SizeT.dec_of_pos (by omega) (by omega)] at hdec'
          exact ⟨by omega, by omega⟩
    · exact hother hm (fun i hi => hdispatch ⟨i, hi⟩) hI
  · intro w e i x v v' _ hI _ _ hreplace _ haccept
    exact hother haccept (fun _ => Move.noConfusion) (hother hreplace (fun _ => Move.noConfusion) hI)

/-- **No connect update is lost.** The updates that were pushed and not yet popped are never more than the
connected peers, these never more than the quota, and every dispatch pushes its update. -/
theorem connect_update_pushed (h : (managerMachine infoHash).Reachable w) :
    w.connects.length ≤ w.statistics.connectedBittorrentPeers ∧
      w.statistics.connectedBittorrentPeers ≤ 50 ∧
      ∀ e w', w.step infoHash e = some w' → w'.dispatched ≠ w.dispatched →
        ∃ i, (w'.peer i).state = .connected ∧
          w'.connects = w.connects ++ [⟨i, (w'.peer i).tcp.socket, w'.pool.generation i⟩] := by
  obtain ⟨hpending, hquota⟩ := pending_le h
  have hconnects : w.connects.length ≤ w.ledger.pending :=
    (Nat.le_add_right _ _).trans (Nat.le_add_right _ _)
  refine ⟨hconnects.trans hpending, hquota, fun e w' hstep hdispatched => ?_⟩
  cases (step_takes (reachable_inOrder h) hstep).moves with
  | one m hcauses hm =>
      cases hm.delivers with
      | nothing _ _ hsame => exact absurd hsame hdispatched
      | disconnect _ _ hsame => exact absurd hsame hdispatched
      | connect i hi _ _ hpush hstate =>
          subst hi
          have hroom : w.statistics.connectedBittorrentPeers < 50 := of_hasMetConnectionQuota hcauses
          exact ⟨i, hstate, hpush ((hconnects.trans hpending).trans_lt hroom)⟩
  | replacing i x v _ hreplace haccept =>
      have hsame : w'.ledger.dispatched = w.ledger.dispatched :=
        (haccept.delivers.dispatched_eq fun _ => Move.noConfusion).trans
          (hreplace.delivers.dispatched_eq fun _ => Move.noConfusion)
      exact absurd hsame hdispatched

theorem connect_update_pushed_sample : sampleWorld.connects.length = 1 ∧
    sampleWorld.connects.length ≤ sampleWorld.statistics.connectedBittorrentPeers :=
  ⟨by decide +kernel, (connect_update_pushed sampleWorld_reachable).1⟩

/-! ### Descriptors recorded -/

/-- The descriptors that the peers of the slots and the sessions record. -/
def recorded (w : World) : List Fd :=
  (List.finRange 200).filterMap (fun i => (w.peer i).tcp.socket) ++
    w.sessions.filterMap fun s => s.socket

/-- No update is popped whose socket its slot still records. -/
def HandsOver (w : World) (e : Event) : Prop :=
  e = .setEndpoint → ∀ u us, w.connects = u :: us → (w.peer u.peer).tcp.socket ≠ u.socket

theorem handedOver (h : (managerMachine infoHash).ReachableBy HandsOver w) : w.ledger.HandedOver := by
  refine ledger_invariant HandedOver ?_ ?_ ?_ h
  · exact fun i fd hfd => Option.noConfusion rfl (heq_of_eq hfd)
  · intro w e m v' hreachable hI hgood hcauses hm
    refine hm.handedOver (reachable_inOrder hreachable).registry ?_ ?_ hI
    · rintro rfl u us hconnects
      exact hgood hcauses u us hconnects
    · rintro ⟨i, rfl⟩
      have hpending := (pending_le hreachable).1
      have hroom : w.statistics.connectedBittorrentPeers < 50 := of_hasMetConnectionQuota hcauses
      have hconnects : w.ledger.connects.length ≤ w.ledger.pending :=
        (Nat.le_add_right _ _).trans (Nat.le_add_right _ _)
      omega
  · intro w e i x v v' hreachable hI _ _ hreplace hregistry haccept
    refine haccept.handedOver hregistry Move.noConfusion (fun ⟨_, h⟩ => Move.noConfusion h) ?_
    exact hreplace.handedOver (reachable_inOrder hreachable).registry Move.noConfusion
      (fun ⟨_, h⟩ => Move.noConfusion h) hI

/-- Two updates in the queue with one socket are one. -/
theorem connect_update_unique {us : List ConnectUpdate}
    (h : (us.filterMap fun u => u.socket).Nodup) {u u' : ConnectUpdate} (hu : u ∈ us) (hu' : u' ∈ us)
    {fd : Fd} (hfd : u.socket = some fd) (hfd' : u'.socket = some fd) : u = u' := by
  have hpairs := List.pairwise_filterMap.mp h
  have hsymm : Std.Symm fun a b : ConnectUpdate =>
      ∀ c, a.socket = some c → ∀ d, b.socket = some d → c ≠ d :=
    ⟨fun a b hab c hc d hd => (hab d hd c hc).symm⟩
  by_contra hne
  exact hpairs.forall hu hu' hne fd hfd fd hfd' rfl

/-- **Each descriptor is recorded once, and only while it is open**, in the runs in which no update is
popped whose socket its slot still records. -/
theorem recorded_once (h : (managerMachine infoHash).ReachableBy HandsOver w) :
    w.recorded.Nodup ∧ ∀ fd ∈ w.recorded, (w.kernel fd).isSome := by
  have hdescriptors := (reachable_inOrder h.reachable).registry.descriptors
  have hheld : w.ledger.held =
      w.connects.filterMap (fun u => u.socket) ++ w.sessions.filterMap fun s => s.socket := rfl
  obtain ⟨hconnects, hsessions, hdisjoint⟩ := List.nodup_append.mp (hheld ▸ hdescriptors.held_nodup)
  have hqueued : ∀ {i fd generation}, (⟨i, some fd, generation⟩ : ConnectUpdate) ∈ w.connects →
      fd ∈ w.connects.filterMap fun u => u.socket := fun hu => List.mem_filterMap.mpr ⟨_, hu, rfl⟩
  have hopen : ∀ {i fd}, (w.peer i).tcp.socket = some fd → (w.kernel fd).isSome := by
    intro i fd hfd
    rcases handedOver h i fd hfd with hflight | ⟨generation, hu⟩
    · exact hdescriptors.flight_open i fd hflight hfd
    · exact hdescriptors.held_open fd (List.mem_append_left _ (hqueued hu))
  have hunique : ∀ i j fd, (w.peer i).tcp.socket = some fd → (w.peer j).tcp.socket = some fd → i = j := by
    intro i j fd hi hj
    rcases handedOver h i fd hi with hflight | ⟨generation, hu⟩
    · rcases handedOver h j fd hj with hflight' | ⟨generation', hu'⟩
      · exact hdescriptors.flight_unique i j fd hflight hflight' hi hj
      · exact absurd (List.mem_append_left _ (hqueued hu')) (hdescriptors.flight_held i fd hflight hi)
    · rcases handedOver h j fd hj with hflight' | ⟨generation', hu'⟩
      · exact absurd (List.mem_append_left _ (hqueued hu)) (hdescriptors.flight_held j fd hflight' hj)
      · exact congrArg ConnectUpdate.peer (connect_update_unique hconnects hu hu' rfl rfl)
  refine ⟨List.nodup_append.mpr ⟨?_, hsessions, ?_⟩, fun fd hfd => ?_⟩
  · exact (List.nodup_finRange 200).filterMap hunique
  · intro fd hfd fd' hfd' heq
    obtain ⟨i, -, hi⟩ := List.mem_filterMap.mp hfd
    rcases handedOver h i fd hi with hflight | ⟨generation, hu⟩
    · refine hdescriptors.flight_held i fd hflight hi (List.mem_append_right _ ?_)
      rw [heq]
      exact hfd'
    · exact hdisjoint fd (hqueued hu) fd' hfd' heq
  · rcases List.mem_append.mp hfd with hfd | hfd
    · obtain ⟨i, -, hi⟩ := List.mem_filterMap.mp hfd
      exact hopen hi
    · exact hdescriptors.held_open fd (List.mem_append_right _ hfd)

/-- Whether an update is popped whose socket its slot does not record. -/
def handsOver (w : World) : Event → Bool
  | .setEndpoint => w.connects.head?.all fun u => (w.peer u.peer).tcp.socket != u.socket
  | _ => true

theorem handsOver_spec (h : handsOver w e = true) : HandsOver w e := by
  rintro rfl u us hconnects
  rw [handsOver, hconnects, List.head?_cons, Option.all_some, bne_iff_ne] at h
  exact h

/-- The slot of a connected peer that is replaced is acquired again, and then its update is popped. -/
def reusedWorld : World :=
  initial.after sampleInfoHash handsOver (replacedRun ++ acceptRun 81 7 ++ [.setEndpoint])

theorem reusedWorld_reachableBy : (managerMachine sampleInfoHash).ReachableBy HandsOver reusedWorld := by
  rw [reusedWorld, after]
  exact .replay_getD (fun _ _ h => handsOver_spec h) (fun _ _ _ h => h) (.init rfl) _

theorem recorded_once_reused : reusedWorld.sessions = [⟨199, 0, some 5⟩] ∧ reusedWorld.recorded = [6, 7, 5] ∧
    [6, 7, 5].Nodup ∧ ∀ fd ∈ [6, 7, 5], (reusedWorld.kernel fd).isSome := by
  have hrecorded : reusedWorld.recorded = [6, 7, 5] := by decide +kernel
  refine ⟨by decide +kernel, hrecorded, ?_⟩
  rw [← hrecorded]
  exact recorded_once reusedWorld_reachableBy

/-- The transfer side takes the peer, and then closes its socket. -/
def takenRun : List Event := acceptRun 80 5 ++ handshakeRun firstSlot ++ [.setEndpoint]

def closedRun : List Event := takenRun ++ [.endpointDisconnected 0 peerShutdown]

/-- The slot keeps the descriptor that it hands over, also when it is closed. -/
theorem recorded_twice : (managerMachine sampleInfoHash).Reachable (afterRun takenRun) ∧
    (afterRun takenRun).recorded = [5, 5] ∧
      (managerMachine sampleInfoHash).Reachable (afterRun closedRun) ∧
        (afterRun closedRun).recorded = [5] ∧ (afterRun closedRun).kernel 5 = none :=
  ⟨afterRun_reachable _, by decide +kernel, afterRun_reachable _, by decide +kernel, by decide +kernel⟩

end World

end TorrentEngine
