import TorrentEngine.PeerLifecycle

/-! What holds of every ledger whatever moves it has seen: the map of peers and the occupied slots agree,
each occupied slot is in one stage, only the update that belongs to a peer can still find it, and no
descriptor is owned twice. -/

open Transition

namespace TorrentEngine.Ledger

open PeerConnection

variable {v v' : Ledger} {i x : ConnectionSlot} {p : PeerConnection}

/-! ### Slots and the map of peers -/

/-- The map of peers names exactly the occupied slots, and every slot is free or in a stage. -/
structure Registered (v : Ledger) : Prop where
  peers_iff : ∀ e i, v.peers e = some i ↔ v.occupied i = true ∧ (v.object i).contact.endpoint = e
  staged : ∀ i, v.occupied i = true → (v.object i).Staged
  vacant : ∀ i, v.occupied i = false → (v.object i).Vacant

namespace Registered

theorem set (h : Registered v) (hi : v.occupied i = true) (hp : p.Staged)
    (hend : p.contact.endpoint = (v.object i).contact.endpoint) : Registered (v.set i p) := by
  refine ⟨fun e j => ?_, fun j hj => ?_, fun j hj => ?_⟩
  · simp only [Ledger.set, Function.update_apply]
    rw [h.peers_iff]
    split
    · rename_i hji
      rw [hji, hend]
    · rfl
  · simp only [Ledger.set, Function.update_apply]
    split
    · exact hp
    · exact h.staged j hj
  · simp only [Ledger.set, Function.update_apply]
    split
    · rename_i hji
      rw [hji] at hj
      exact absurd (hi.symm.trans hj) Bool.noConfusion
    · exact h.vacant j hj

theorem vacate (h : Registered v) (hi : v.occupied i = true) (hp : p.Vacant) :
    Registered (v.vacate i p) := by
  have hmap : v.peers (v.object i).contact.endpoint = some i := (h.peers_iff _ i).mpr ⟨hi, rfl⟩
  refine ⟨fun e j => ?_, fun j hj => ?_, fun j hj => ?_⟩
  · simp only [Ledger.vacate, Function.update_apply]
    by_cases he : e = (v.object i).contact.endpoint
    · rw [if_pos he]
      refine ⟨fun hnone => absurd hnone (Option.some_ne_none j).symm, fun ⟨hj, hend⟩ => ?_⟩
      by_cases hji : j = i
      · rw [if_pos hji] at hj
        cases hj
      · rw [if_neg hji] at hj hend
        have hother := (h.peers_iff e j).mpr ⟨hj, hend⟩
        rw [he, hmap] at hother
        exact absurd (Option.some.inj hother).symm hji
    · rw [if_neg he, h.peers_iff]
      by_cases hji : j = i
      · rw [if_pos hji, if_pos hji, hji]
        refine ⟨fun hmapped => absurd hmapped.2.symm he, fun hfree => Bool.noConfusion hfree.1⟩
      · rw [if_neg hji, if_neg hji]
  · simp only [Ledger.vacate, Function.update_apply] at hj ⊢
    by_cases hji : j = i
    · rw [if_pos hji] at hj
      cases hj
    · rw [if_neg hji] at hj ⊢
      exact h.staged j hj
  · simp only [Ledger.vacate, Function.update_apply] at hj ⊢
    by_cases hji : j = i
    · rw [if_pos hji]
      exact hp
    · rw [if_neg hji] at hj ⊢
      exact h.vacant j hj

theorem occupy (h : Registered v) (hx : v.occupied x = false) (hp : p.Staged)
    (hend : v.peers p.contact.endpoint = none) : Registered (v.occupy x p) := by
  refine ⟨fun e j => ?_, fun j hj => ?_, fun j hj => ?_⟩
  · simp only [Ledger.occupy, Function.update_apply]
    by_cases hjx : j = x
    · rw [if_pos hjx, if_pos hjx, hjx]
      by_cases he : e = p.contact.endpoint
      · rw [if_pos he, he]
        exact ⟨fun _ => ⟨rfl, rfl⟩, fun _ => rfl⟩
      · rw [if_neg he]
        refine ⟨fun hmapped => ?_, fun hnew => absurd hnew.2.symm he⟩
        have hocc := ((h.peers_iff e x).mp hmapped).1
        exact absurd (hocc.symm.trans hx) Bool.noConfusion
    · rw [if_neg hjx, if_neg hjx]
      by_cases he : e = p.contact.endpoint
      · rw [if_pos he, ← h.peers_iff, he, hend]
        exact ⟨fun hxj => absurd (Option.some.inj hxj).symm hjx,
          fun hnone => absurd hnone (Option.some_ne_none j).symm⟩
      · rw [if_neg he]
        exact h.peers_iff e j
  · simp only [Ledger.occupy, Function.update_apply] at hj ⊢
    by_cases hjx : j = x
    · rw [if_pos hjx]
      exact hp
    · rw [if_neg hjx] at hj ⊢
      exact h.staged j hj
  · simp only [Ledger.occupy, Function.update_apply] at hj ⊢
    by_cases hjx : j = x
    · rw [if_pos hjx] at hj
      cases hj
    · rw [if_neg hjx] at hj ⊢
      exact h.vacant j hj

/-- A free slot may be given another vacant peer. -/
theorem recycle (h : Registered v) (hx : v.occupied x = false) (hp : p.Vacant) :
    Registered (v.set x p) := by
  refine ⟨fun e j => ?_, fun j hj => ?_, fun j hj => ?_⟩
  · simp only [Ledger.set, Function.update_apply]
    rw [h.peers_iff]
    split
    · rename_i hjx
      rw [hjx, hx]
      exact ⟨fun hocc => Bool.noConfusion hocc.1, fun hocc => Bool.noConfusion hocc.1⟩
    · rfl
  · simp only [Ledger.set, Function.update_apply]
    split
    · rename_i hjx
      rw [hjx] at hj
      exact absurd (hj.symm.trans hx) Bool.noConfusion
    · exact h.staged j hj
  · simp only [Ledger.set, Function.update_apply]
    split
    · exact hp
    · exact h.vacant j hj

end Registered

/-! ### Updates and sessions that refer to a slot -/

/-- A reference is never newer than its slot. One that is as new refers to a peer that waits for it: a
retry to a waiting peer, anything after a dispatch to a connected one. -/
structure References (v : Ledger) : Prop where
  retry : ∀ r ∈ v.retryQueue, r.cachedGeneration ≤ v.generation r.connection ∧
    (r.cachedGeneration = v.generation r.connection → (v.object r.connection).Waiting)
  nodup : v.retryQueue.Nodup
  dispatched : ∀ t ∈ v.references, t.2 ≤ v.generation t.1 ∧
    (t.2 = v.generation t.1 → (v.object t.1).Connected)

namespace References

theorem set (h : References v)
    (hretry : ∀ r ∈ v.retryQueue, r.connection = i → r.cachedGeneration = v.generation i → p.Waiting)
    (hdispatched : ∀ t ∈ v.references, t.1 = i → t.2 = v.generation i → p.Connected) :
    References (v.set i p) := by
  refine ⟨fun r hr => ⟨(h.retry r hr).1, fun hgen => ?_⟩, h.nodup,
    fun t ht => ⟨(h.dispatched t ht).1, fun hgen => ?_⟩⟩
  · simp only [Ledger.set, Function.update_apply] at hgen ⊢
    split
    · rename_i hri
      rw [hri] at hgen
      exact hretry r hr hri hgen
    · exact (h.retry r hr).2 hgen
  · simp only [Ledger.set, Function.update_apply] at hgen ⊢
    split
    · rename_i hti
      rw [hti] at hgen
      exact hdispatched t ht hti hgen
    · exact (h.dispatched t ht).2 hgen

/-- A peer that neither waits nor is connected has no reference as new as its slot. -/
theorem set_of_not (h : References v) (hw : ¬ (v.object i).Waiting) (hc : ¬ (v.object i).Connected) :
    References (v.set i p) := by
  refine h.set (fun r hr hri hgen => ?_) fun t ht hti hgen => ?_
  · have hwait := (h.retry r hr).2 (by rw [hri]; exact hgen)
    rw [hri] at hwait
    exact absurd hwait hw
  · have hconn := (h.dispatched t ht).2 (by rw [hti]; exact hgen)
    rw [hti] at hconn
    exact absurd hconn hc

/-- A new generation leaves every reference behind. -/
theorem bump (h : References v) :
    References { v.set i p with
      generation := Function.update v.generation i (v.generation i + 1) } := by
  refine ⟨fun r hr => ?_, h.nodup, fun t ht => ?_⟩
  · obtain ⟨hle, hwait⟩ := h.retry r hr
    simp only [Ledger.set, Function.update_apply]
    split
    · rename_i hri
      rw [hri] at hle
      exact ⟨by omega, fun hgen => by omega⟩
    · exact ⟨hle, hwait⟩
  · obtain ⟨hle, hconn⟩ := h.dispatched t ht
    simp only [Ledger.set, Function.update_apply]
    split
    · rename_i hti
      rw [hti] at hle
      exact ⟨by omega, fun hgen => by omega⟩
    · exact ⟨hle, hconn⟩

/-- References may be dropped, or moved between the queues after a dispatch. -/
theorem drop (h : References v) (hobject : v'.object = v.object)
    (hgeneration : v'.generation = v.generation) (hretry : v'.retryQueue.Sublist v.retryQueue)
    (hdispatched : ∀ t ∈ v'.references, t ∈ v.references) : References v' := by
  refine ⟨fun r hr => ?_, hretry.nodup h.nodup, fun t ht => ?_⟩
  · rw [hobject, hgeneration]
    exact h.retry r (hretry.subset hr)
  · rw [hobject, hgeneration]
    exact h.dispatched t (hdispatched t ht)

/-- Once the retry of a waiting peer is popped, the queue has no other that is as new. -/
theorem retry_unique (h : References v) {rs : List PeerFailureUpdate}
    (hqueue : v.retryQueue = ⟨i, v.generation i⟩ :: rs) :
    ∀ r ∈ rs, r.connection = i → r.cachedGeneration ≠ v.generation i := by
  intro r hr hri hgen
  have hnodup := h.nodup
  rw [hqueue] at hnodup
  have heq : r = ⟨i, v.generation i⟩ := by rw [← hgen, ← hri]
  rw [heq] at hr
  exact (List.nodup_cons.mp hnodup).1 hr

end References

/-! ### Descriptors -/

/-- A descriptor is open as long as a peer in flight or the transfer side owns it, and has one owner. -/
structure Descriptors (v : Ledger) : Prop where
  flight_open : ∀ i fd, (v.object i).InFlight → (v.object i).tcp.socket = some fd →
    (v.kernel fd).isSome
  flight_unique : ∀ i j fd, (v.object i).InFlight → (v.object j).InFlight →
    (v.object i).tcp.socket = some fd → (v.object j).tcp.socket = some fd → i = j
  flight_held : ∀ i fd, (v.object i).InFlight → (v.object i).tcp.socket = some fd → fd ∉ v.held
  held_open : ∀ fd ∈ v.held, (v.kernel fd).isSome
  held_nodup : v.held.Nodup

namespace Descriptors

/-- A peer that is not in flight owns nothing. -/
theorem set (h : Descriptors v) (hp : ¬ p.InFlight) : Descriptors (v.set i p) := by
  have hobject : ∀ j, ((v.set i p).object j).InFlight →
      (v.set i p).object j = v.object j := by
    intro j hj
    simp only [Ledger.set, Function.update_apply] at hj ⊢
    split at hj
    · exact absurd hj hp
    · rename_i hji
      rw [if_neg hji]
  refine ⟨fun j fd hj hfd => ?_, fun j k fd hj hk hfj hfk => ?_, fun j fd hj hfd => ?_, h.held_open,
    h.held_nodup⟩
  · have hobj := hobject j hj
    rw [hobj] at hj hfd
    exact h.flight_open j fd hj hfd
  · have hobj := hobject j hj
    have hobk := hobject k hk
    rw [hobj] at hj hfj
    rw [hobk] at hk hfk
    exact h.flight_unique j k fd hj hk hfj hfk
  · have hobj := hobject j hj
    rw [hobj] at hj hfd
    exact h.flight_held j fd hj hfd

/-- Closing the socket of a peer in flight that gives it up. -/
theorem close (h : Descriptors v) (hi : (v.object i).InFlight) (hp : ¬ p.InFlight) :
    Descriptors { v.set i p with kernel := v.kernel.closed (v.object i).tcp.socket } := by
  have hset := @set v i p h hp
  obtain ⟨own, hown⟩ := Option.ne_none_iff_exists'.mp hi.socket
  have hopen : ∀ fd, fd ≠ own → (v.kernel fd).isSome →
      (v.kernel.closed (v.object i).tcp.socket fd).isSome := by
    intro fd hfd hsome
    rw [hown]
    simp only [Kernel.closed, Function.update_of_ne hfd]
    exact hsome
  refine ⟨fun j fd hj hfd => ?_, hset.flight_unique, hset.flight_held, fun fd hfd => ?_,
    hset.held_nodup⟩
  · refine hopen fd (fun hfo => ?_) (hset.flight_open j fd hj hfd)
    subst hfo
    simp only [Ledger.set, Function.update_apply] at hj hfd
    split at hj
    · exact hp hj
    · rename_i hji
      rw [if_neg hji] at hfd
      exact hji (h.flight_unique j i fd hj hi hfd hown)
  · refine hopen fd (fun hfo => ?_) (h.held_open fd hfd)
    subst hfo
    exact h.flight_held i fd hi hown hfd

/-- The connection of a peer moves on. -/
theorem progress (h : Descriptors v) {kernel : Kernel} (hi : (v.object i).InFlight)
    (hsocket : p.tcp.socket = (v.object i).tcp.socket)
    (hkernel : OnlyAt (v.object i).tcp.socket v.kernel kernel) :
    Descriptors { v.set i p with kernel } := by
  have hobject : ∀ j fd, ((v.set i p).object j).InFlight → ((v.set i p).object j).tcp.socket = some fd →
      (v.object j).InFlight ∧ (v.object j).tcp.socket = some fd := by
    intro j fd hj hfd
    simp only [Ledger.set, Function.update_apply] at hj hfd
    by_cases hji : j = i
    · rw [if_pos hji] at hfd
      rw [hji]
      exact ⟨hi, hsocket ▸ hfd⟩
    · rw [if_neg hji] at hj hfd
      exact ⟨hj, hfd⟩
  refine ⟨fun j fd hj hfd => ?_, fun j k fd hj hk hfj hfk => ?_, fun j fd hj hfd => ?_, fun fd hfd => ?_,
    h.held_nodup⟩
  · obtain ⟨hj', hfd'⟩ := hobject j fd hj hfd
    exact (hkernel.isSome fd).trans (h.flight_open j fd hj' hfd')
  · obtain ⟨hj', hfj'⟩ := hobject j fd hj hfj
    obtain ⟨hk', hfk'⟩ := hobject k fd hk hfk
    exact h.flight_unique j k fd hj' hk' hfj' hfk'
  · obtain ⟨hj', hfd'⟩ := hobject j fd hj hfd
    exact h.flight_held j fd hj' hfd'
  · exact (hkernel.isSome fd).trans (h.held_open fd hfd)

/-- A descriptor that was closed is opened for a peer that owned none. -/
theorem open_ (h : Descriptors v) {fd : Fd} (hsocket : p.tcp.socket = some fd)
    (hfd : v.kernel fd = none) :
    Descriptors { v.set x p with kernel := v.kernel.opened fd } := by
  have hisSome : ∀ other, (v.kernel other).isSome → other ≠ fd ∧ (v.kernel.opened fd other).isSome := by
    intro other hsome
    have hne : other ≠ fd := fun heq => by
      rw [heq, hfd] at hsome
      cases hsome
    refine ⟨hne, ?_⟩
    rw [Kernel.opened, Function.update_of_ne hne]
    exact hsome
  have hobject : ∀ j, ((v.set x p).object j).InFlight →
      j = x ∨ (v.set x p).object j = v.object j ∧ (v.object j).InFlight := by
    intro j hj
    simp only [Ledger.set, Function.update_apply] at hj ⊢
    by_cases hjx : j = x
    · exact Or.inl hjx
    · rw [if_neg hjx] at hj ⊢
      exact Or.inr ⟨rfl, hj⟩
  have hnew : (v.set x p).object x = p := by
    simp only [Ledger.set, Function.update_self]
  refine ⟨fun j other hj hother => ?_, fun j k other hj hk hoj hok => ?_, fun j other hj hother => ?_,
    fun other hother => (hisSome other (h.held_open other hother)).2, h.held_nodup⟩
  · rcases hobject j hj with hjx | ⟨hobj, hj'⟩
    · have hsame : other = fd := by
        have hsock := hother
        simp only [hjx] at hsock
        rw [hnew, hsocket] at hsock
        exact (Option.some.inj hsock).symm
      rw [hsame]
      simp only [Kernel.opened, Function.update_self]
      rfl
    · simp only at hother
      rw [hobj] at hother
      exact (hisSome other (h.flight_open j other hj' hother)).2
  · simp only at hj hk hoj hok
    rcases hobject j hj with hjx | ⟨hobj, hj'⟩
    · rcases hobject k hk with hkx | ⟨hobk, hk'⟩
      · rw [hjx, hkx]
      · rw [hobk] at hok
        rw [hjx, hnew, hsocket] at hoj
        exact absurd (Option.some.inj hoj).symm (hisSome other (h.flight_open k other hk' hok)).1
    · rw [hobj] at hoj
      rcases hobject k hk with hkx | ⟨hobk, hk'⟩
      · rw [hkx, hnew, hsocket] at hok
        exact absurd (Option.some.inj hok).symm (hisSome other (h.flight_open j other hj' hoj)).1
      · rw [hobk] at hok
        exact h.flight_unique j k other hj' hk' hoj hok
  · simp only at hj hother
    rcases hobject j hj with hjx | ⟨hobj, hj'⟩
    · rw [hjx, hnew, hsocket] at hother
      intro hheld
      exact (hisSome other (h.held_open other hheld)).1 (Option.some.inj hother).symm
    · rw [hobj] at hother
      exact h.flight_held j other hj' hother

end Descriptors

namespace Descriptors

/-- The transfer side passes descriptors on. -/
theorem of_perm (h : Descriptors v) (hobject : v'.object = v.object) (hkernel : v'.kernel = v.kernel)
    (hheld : v'.held.Perm v.held) : Descriptors v' := by
  refine ⟨?_, ?_, fun i fd hi hfd hmem => ?_, fun fd hfd => ?_, hheld.nodup_iff.mpr h.held_nodup⟩
  · rw [hobject, hkernel]
    exact h.flight_open
  · rw [hobject]
    exact h.flight_unique
  · rw [hobject] at hi hfd
    exact h.flight_held i fd hi hfd (hheld.mem_iff.mp hmem)
  · rw [hkernel]
    exact h.held_open fd (hheld.mem_iff.mp hfd)

/-- The transfer side closes a descriptor it holds. -/
theorem close_held (h : Descriptors v) {fd : Fd} (hobject : v'.object = v.object)
    (hkernel : v'.kernel = v.kernel.closed (some fd)) (hheld : (fd :: v'.held).Perm v.held) :
    Descriptors v' := by
  have hnodup : (fd :: v'.held).Nodup := hheld.nodup_iff.mpr h.held_nodup
  have hsub : ∀ other, other ∈ v'.held → other ∈ v.held := fun other hother =>
    hheld.mem_iff.mp (List.mem_cons_of_mem fd hother)
  have hopen : ∀ other, other ≠ fd → (v'.kernel other).isSome = (v.kernel other).isSome := by
    intro other hne
    rw [hkernel, Kernel.closed, Function.update_of_ne hne]
  refine ⟨fun i other hi hother => ?_, ?_, fun i other hi hother hmem => ?_, fun other hother => ?_,
    (List.nodup_cons.mp hnodup).2⟩
  · rw [hobject] at hi hother
    rw [hopen other]
    · exact h.flight_open i other hi hother
    · intro heq
      subst heq
      exact h.flight_held i other hi hother (hheld.mem_iff.mp List.mem_cons_self)
  · rw [hobject]
    exact h.flight_unique
  · rw [hobject] at hi hother
    exact h.flight_held i other hi hother (hsub other hmem)
  · rw [hopen other]
    · exact h.held_open other (hsub other hother)
    · intro heq
      subst heq
      exact (List.nodup_cons.mp hnodup).1 hother

/-- A peer in flight gives its descriptor to the transfer side, or nobody. -/
theorem hand_over (h : Descriptors v) {kernel : Kernel} {cs : List ConnectUpdate}
    {generation : Nat} (hi : (v.object i).InFlight) (hp : ¬ p.InFlight)
    (hsocket : p.tcp.socket = (v.object i).tcp.socket)
    (hkernel : OnlyAt (v.object i).tcp.socket v.kernel kernel)
    (hcs : cs = v.connects ∨ cs = v.connects ++ [⟨i, p.tcp.socket, generation⟩]) :
    Descriptors { v.set i p with kernel, connects := cs } := by
  obtain ⟨own, hown⟩ := Option.ne_none_iff_exists'.mp hi.socket
  have hset := @set v i p h hp
  have hopen : ∀ fd, (v.kernel fd).isSome → (kernel fd).isSome := fun fd hfd =>
    (hkernel.isSome fd).trans hfd
  have hkept : Descriptors { v.set i p with kernel } :=
    ⟨fun j fd hj hfd => hopen fd (hset.flight_open j fd hj hfd), hset.flight_unique, hset.flight_held,
      fun fd hfd => hopen fd (h.held_open fd hfd), h.held_nodup⟩
  rcases hcs with rfl | rfl
  · exact hkept
  · have hperm : (Ledger.held { v.set i p with
        kernel, connects := v.connects ++ [⟨i, p.tcp.socket, generation⟩] }).Perm (own :: v.held) := by
      rw [Ledger.held, Ledger.held, List.filterMap_append, hsocket, hown]
      exact List.perm_append_right_iff _ |>.mpr List.perm_append_comm
    have hfresh : own ∉ v.held := h.flight_held i own hi hown
    refine ⟨hkept.flight_open, hkept.flight_unique, fun j fd hj hfd hmem => ?_, fun fd hfd => ?_,
      hperm.nodup_iff.mpr (List.nodup_cons.mpr ⟨hfresh, h.held_nodup⟩)⟩
    · rcases List.mem_cons.mp (hperm.mem_iff.mp hmem) with heq | hheld
      · simp only [Ledger.set, Function.update_apply] at hj hfd
        split at hj
        · exact hp hj
        · rename_i hji
          rw [if_neg hji, heq] at hfd
          exact hji (h.flight_unique j i own hj hi hfd hown)
      · exact hkept.flight_held j fd hj hfd hheld
    · rcases List.mem_cons.mp (hperm.mem_iff.mp hfd) with heq | hheld
      · rw [heq]
        exact hopen own (h.flight_open i own hi hown)
      · exact hkept.held_open fd hheld

end Descriptors

/-! ### Every move keeps the ledger in order -/

structure Registry (v : Ledger) : Prop where
  registered : Registered v
  references : References v
  descriptors : Descriptors v

namespace Registry

/-- Nothing here depends on the counters. -/
theorem recount (h : Registry v) (statistics : ConnectionStatistics) (poisoned : Nat)
    (dispatched : List (Option Connection)) :
    Registry { v with statistics, poisoned, dispatched } :=
  ⟨⟨h.registered.peers_iff, h.registered.staged, h.registered.vacant⟩,
    ⟨h.references.retry, h.references.nodup, h.references.dispatched⟩,
    h.descriptors.of_perm rfl rfl (List.Perm.refl _)⟩

/-- Updates may be dropped from the queues. -/
theorem drop (h : Registry v) {rs : List PeerFailureUpdate} {ds : List DisconnectUpdate}
    (hrs : rs.Sublist v.retryQueue) (hds : ds.Sublist v.disconnects) :
    Registry { v with retryQueue := rs, disconnects := ds } := by
  refine ⟨⟨h.registered.peers_iff, h.registered.staged, h.registered.vacant⟩,
    h.references.drop rfl rfl hrs fun t ht => ?_, h.descriptors.of_perm rfl rfl (List.Perm.refl _)⟩
  simp only [Ledger.references, List.mem_append] at ht ⊢
  exact ht.imp_right fun hd => (hds.map _).subset hd

/-- A slot is given back: the peer in it has been torn down, its socket closed if it was in flight. -/
theorem vacate (h : Registry v) (hi : v.occupied i = true) (hp : p.Vacant) {kernel : Kernel}
    (hd : Descriptors { v.set i p with kernel }) : Registry { v.vacate i p with kernel } :=
  let hr := h.registered.vacate hi hp
  let href := @References.bump v i p h.references
  ⟨⟨hr.peers_iff, hr.staged, hr.vacant⟩, ⟨href.retry, href.nodup, href.dispatched⟩,
    hd.of_perm rfl rfl (List.Perm.refl _)⟩

/-- A peer takes a free slot and a new descriptor. -/
theorem occupy (h : Registry v) (hx : v.occupied x = false) (hp : p.InFlight) {fd : Fd}
    (hsocket : p.tcp.socket = some fd) (hfd : v.kernel fd = none)
    (hend : v.peers p.contact.endpoint = none) :
    Registry { v.occupy x p with kernel := v.kernel.opened fd } :=
  let hr := h.registered.occupy hx (.inFlight hp) hend
  let hvacant := h.registered.vacant x hx
  let href := @References.set_of_not v x p h.references (fun hw => hw.not_vacant hvacant)
    fun hc => hc.not_vacant hvacant
  let hd := @Descriptors.open_ v x p h.descriptors fd hsocket hfd
  ⟨⟨hr.peers_iff, hr.staged, hr.vacant⟩, ⟨href.retry, href.nodup, href.dispatched⟩,
    hd.of_perm rfl rfl (List.Perm.refl _)⟩

/-- The peer in a slot changes without leaving it. -/
theorem set (h : Registry v) (hi : v.occupied i = true) (hp : p.Staged)
    (hend : p.contact.endpoint = (v.object i).contact.endpoint) {kernel : Kernel}
    (href : References (v.set i p)) (hd : Descriptors { v.set i p with kernel }) :
    Registry { v.set i p with kernel } :=
  let hr := h.registered.set hi hp hend
  ⟨⟨hr.peers_iff, hr.staged, hr.vacant⟩, ⟨href.retry, href.nodup, href.dispatched⟩, hd⟩

/-- A peer that gives up its socket, whatever its stage was, leaves the descriptors in order. -/
theorem close (h : Registry v) (hi : v.occupied i = true) (hstate : (v.object i).state ≠ .connected)
    (hp : ¬ p.InFlight) :
    Descriptors { v.set i p with kernel := v.kernel.closed (v.object i).tcp.socket } := by
  have hset := @Descriptors.set v i p h.descriptors hp
  cases h.registered.staged i hi with
  | inFlight hflight => exact h.descriptors.close hflight hp
  | failed hfailed =>
      rw [hfailed.socket]
      exact hset
  | waiting hwaiting =>
      rw [hwaiting.socket]
      exact hset
  | connected hconnected => exact absurd hconnected.state hstate

theorem not_inFlight_of_vacant (hp : p.Vacant) : ¬ p.InFlight := fun h => h.not_vacant hp

theorem setEndpoint (h : Registry v) {u : ConnectUpdate} {us : List ConnectUpdate}
    (hconnects : v.connects = u :: us) :
    Registry { v with connects := us, sessions := v.sessions ++ [⟨u.peer, u.generation, u.socket⟩] } where
  registered := ⟨h.registered.peers_iff, h.registered.staged, h.registered.vacant⟩
  references := h.references.drop rfl rfl (List.Sublist.refl _) (by
    intro t ht
    simp only [Ledger.references, hconnects, List.map_cons, List.map_append, List.map_nil,
      List.mem_append, List.mem_cons, List.not_mem_nil, or_false] at ht ⊢
    rcases ht with (h₁ | h₂ | h₃) | h₄
    · exact Or.inl (Or.inl (Or.inr h₁))
    · exact Or.inl (Or.inr h₂)
    · exact Or.inl (Or.inl (Or.inl h₃))
    · exact Or.inr h₄)
  descriptors := h.descriptors.of_perm rfl rfl (by
    have hsplit : (u :: us).filterMap (fun u => u.socket) =
        [PeerSession.mk u.peer u.generation u.socket].filterMap (fun s => s.socket) ++
          us.filterMap fun u => u.socket := by
      cases hsocket : u.socket <;> simp [hsocket]
    rw [Ledger.held, Ledger.held, hconnects, hsplit, List.filterMap_append, ← List.append_assoc]
    refine List.perm_append_comm.trans ?_
    rw [← List.append_assoc])

theorem endSession (h : Registry v) {k : Nat} {s : PeerSession} {ds : List DisconnectUpdate}
    (hs : v.sessions[k]? = some s)
    (hds : ds = v.disconnects ∨ ∃ perrno, ds = v.disconnects ++ [⟨s.peer, s.generation, perrno⟩]) :
    Registry { v with
      sessions := v.sessions.eraseIdx k, kernel := v.kernel.closed s.socket, disconnects := ds } := by
  obtain ⟨hk, hget⟩ := List.getElem?_eq_some_iff.mp hs
  have hperm : (s :: v.sessions.eraseIdx k).Perm v.sessions := by
    rw [← hget]
    exact List.getElem_cons_eraseIdx_perm hk
  refine ⟨⟨h.registered.peers_iff, h.registered.staged, h.registered.vacant⟩, ?_, ?_⟩
  · refine h.references.drop rfl rfl (List.Sublist.refl _) fun t ht => ?_
    simp only [Ledger.references, List.mem_append] at ht ⊢
    rcases ht with (h₁ | h₂) | h₃
    · exact Or.inl (Or.inl h₁)
    · refine Or.inl (Or.inr ?_)
      obtain ⟨s', hs', rfl⟩ := List.mem_map.mp h₂
      exact List.mem_map.mpr ⟨s', hperm.mem_iff.mp (List.mem_cons_of_mem s hs'), rfl⟩
    · rcases hds with rfl | ⟨perrno, rfl⟩
      · exact Or.inr h₃
      · rw [List.map_append, List.mem_append] at h₃
        rcases h₃ with h₃ | h₄
        · exact Or.inr h₃
        · refine Or.inl (Or.inr ?_)
          rw [List.map_singleton, List.mem_singleton] at h₄
          rw [h₄]
          exact List.mem_map.mpr ⟨s, hperm.mem_iff.mp List.mem_cons_self, rfl⟩
  · have hsockets := (hperm.filterMap fun s => s.socket).append_left
      (v.connects.filterMap fun u => u.socket)
    cases hsocket : s.socket with
    | none =>
        rw [List.filterMap_cons_none hsocket] at hsockets
        exact h.descriptors.of_perm rfl rfl hsockets
    | some fd =>
        rw [List.filterMap_cons_some hsocket] at hsockets
        exact h.descriptors.close_held rfl rfl (List.perm_middle.symm.trans hsockets)

theorem requeue (h : Registry v) (hi : v.occupied i = true) (hfailed : (v.object i).Failed)
    (hp : p.Waiting) (hend : p.contact.endpoint = (v.object i).contact.endpoint) :
    Registry { v.set i p with retryQueue := v.retryQueue ++ [⟨i, v.generation i⟩] } := by
  have href := @References.set_of_not v i p h.references hfailed.not_waiting hfailed.not_connected
  have hset : Registry { v.set i p with kernel := v.kernel } :=
    h.set hi (.waiting hp) hend href (h.descriptors.set fun hflight => hflight.not_waiting hp)
  have hnew : (⟨i, v.generation i⟩ : PeerFailureUpdate) ∉ v.retryQueue := fun hmem =>
    hfailed.not_waiting ((h.references.retry _ hmem).2 rfl)
  refine ⟨⟨hset.registered.peers_iff, hset.registered.staged, hset.registered.vacant⟩,
    ⟨fun r hr => ?_, ?_, href.dispatched⟩, hset.descriptors.of_perm rfl rfl (List.Perm.refl _)⟩
  · rcases List.mem_append.mp hr with hold | hnew
    · exact href.retry r hold
    · rw [List.mem_singleton.mp hnew]
      refine ⟨le_refl _, fun _ => ?_⟩
      simp only [Ledger.set, Function.update_self]
      exact hp
  · exact List.nodup_append.mpr ⟨h.references.nodup, List.nodup_singleton _, fun a ha b hb hab => by
      rw [List.mem_singleton.mp hb] at hab
      rw [hab] at ha
      exact hnew ha⟩

theorem dispatch (h : Registry v) (hi : v.occupied i = true) (hflight : (v.object i).InFlight)
    (hp : p.Connected) (hsame : SameAttempt (v.object i) p) {kernel : Kernel}
    (hkernel : OnlyAt (v.object i).tcp.socket v.kernel kernel) {cs : List ConnectUpdate}
    (hcs : cs = v.connects ∨ cs = v.connects ++ [⟨i, p.tcp.socket, v.generation i⟩]) :
    Registry { v.set i p with kernel, connects := cs } := by
  have hr := h.registered.set hi (.connected hp) hsame.endpoint
  have href := @References.set_of_not v i p h.references hflight.not_waiting hflight.not_connected
  refine ⟨⟨hr.peers_iff, hr.staged, hr.vacant⟩, ⟨href.retry, href.nodup, fun t ht => ?_⟩,
    h.descriptors.hand_over hflight (fun hf => hf.not_connected hp) hsame.socket hkernel hcs⟩
  rcases hcs with rfl | rfl
  · exact href.dispatched t ht
  · simp only [Ledger.references, List.map_append, List.mem_append, List.map_cons, List.map_nil,
      List.mem_singleton] at ht
    rcases ht with ((h₁ | h₂) | h₃) | h₄
    · exact href.dispatched t (List.mem_append_left _ (List.mem_append_left _ h₁))
    · rw [h₂]
      refine ⟨le_refl _, fun _ => ?_⟩
      simp only [Ledger.set, Function.update_self]
      exact hp
    · exact href.dispatched t (List.mem_append_left _ (List.mem_append_right _ h₃))
    · exact href.dispatched t (List.mem_append_right _ h₄)

theorem retry (h : Registry v) (hi : v.occupied i = true) (hwaiting : (v.object i).Waiting)
    {rs : List PeerFailureUpdate} (hqueue : v.retryQueue = ⟨i, v.generation i⟩ :: rs)
    (hp : p.InFlight) {fd : Fd} (hsocket : p.tcp.socket = some fd) (hfd : v.kernel fd = none)
    (hend : p.contact.endpoint = (v.object i).contact.endpoint) :
    Registry { v.set i p with retryQueue := rs, kernel := v.kernel.opened fd } := by
  have hpop : Registry { v with retryQueue := rs, disconnects := v.disconnects } :=
    h.drop (by rw [hqueue]; exact List.sublist_cons_self _ rs) (List.Sublist.refl _)
  have hnone : ∀ t ∈ v.references, t.1 = i → t.2 = v.generation i → p.Connected := by
    intro t ht hti hgen
    have hconn := (h.references.dispatched t ht).2 (by rw [hti]; exact hgen)
    rw [hti] at hconn
    exact absurd hconn hwaiting.not_connected
  exact hpop.set hi (.inFlight hp) hend
    (hpop.references.set
      (fun r hr hri hgen => absurd hgen (h.references.retry_unique hqueue r hr hri)) hnone)
    (hpop.descriptors.open_ hsocket hfd)

/-- **Every move keeps the ledger in order.** -/
theorem step (h : Registry v) {infoHash : Vector Byte 20} {m : Move} (hstep : Step infoHash v m v') :
    Registry v' := by
  cases m with
  | quiet =>
      rw [Step] at hstep
      rw [hstep]
      exact h
  | setEndpoint =>
      obtain ⟨u, us, hconnects, rfl⟩ := hstep
      exact h.setEndpoint hconnects
  | endSession =>
      obtain ⟨k, s, ds, hs, hds, rfl⟩ := hstep
      exact h.endSession hs hds
  | dropDisconnect =>
      obtain ⟨d, ds, hdisconnects, -, rfl⟩ := hstep
      exact h.drop (List.Sublist.refl _) (by rw [hdisconnects]; exact List.sublist_cons_self d ds)
  | dropRetry =>
      obtain ⟨r, rs, hqueue, -, rfl⟩ := hstep
      have hdrop := @drop v h rs v.disconnects
        (by rw [hqueue]; exact List.sublist_cons_self r rs) (List.Sublist.refl _)
      exact hdrop.recount _ _ _
  | recycle x =>
      obtain ⟨hx, p, n, hp, -, -, rfl⟩ := hstep
      have hr := h.registered.recycle hx hp
      have href := @References.bump v x p h.references
      have hd := @Descriptors.set v x p h.descriptors (not_inFlight_of_vacant hp)
      exact ⟨⟨hr.peers_iff, hr.staged, hr.vacant⟩, ⟨href.retry, href.nodup, href.dispatched⟩,
        hd.of_perm rfl rfl (List.Perm.refl _)⟩
  | discover x immediate =>
      obtain ⟨hx, -, p, fd, hp, hfd, hend, rfl⟩ := hstep
      exact (h.occupy hx hp.inFlight hp.socket hfd hend).recount _ _ _
  | accept x =>
      obtain ⟨hx, p, fd, hp, hfd, hend, rfl⟩ := hstep
      exact (h.occupy hx hp.inFlight hp.socket hfd hend).recount _ _ _
  | retry i immediate =>
      obtain ⟨hi, hwaiting, p, fd, rs, hp, hfd, hqueue, hend, rfl⟩ := hstep
      exact (h.retry hi hwaiting hqueue hp.inFlight hp.socket hfd hend).recount _ _ _
  | abandon i =>
      obtain ⟨hi, -, p, rs, hp, -, hqueue, rfl⟩ := hstep
      have hdrop := @drop v h rs v.disconnects
        (by rw [hqueue]; exact List.sublist_cons_self _ rs) (List.Sublist.refl _)
      exact (hdrop.vacate hi hp (hdrop.descriptors.set (not_inFlight_of_vacant hp))).recount _ _ _
  | replace i =>
      obtain ⟨hi, p, hp, hcases⟩ := hstep
      have hnot := not_inFlight_of_vacant hp
      rcases hcases with ⟨hstate, -, rfl⟩ | ⟨-, -, rfl⟩
      · exact (h.vacate hi hp (h.close hi hstate hnot)).recount _ _ _
      · exact (h.vacate hi hp (h.descriptors.set hnot)).recount _ _ _
  | disconnect i =>
      obtain ⟨hi, -, p, d, ds, hp, -, hdisconnects, -, -, rfl⟩ := hstep
      have hdrop := @drop v h v.retryQueue ds (List.Sublist.refl _)
        (by rw [hdisconnects]; exact List.sublist_cons_self d ds)
      exact (hdrop.vacate hi hp (hdrop.descriptors.set (not_inFlight_of_vacant hp))).recount _ _ _
  | progress i =>
      obtain ⟨hi, hflight, p, kernel, hp, hsame, hkernel, rfl, -⟩ := hstep
      exact h.set hi (.inFlight hp) hsame.endpoint
        (h.references.set_of_not hflight.not_waiting hflight.not_connected)
        (h.descriptors.progress hflight hsame.socket hkernel)
  | fail i =>
      obtain ⟨hi, hflight, -, p, hp, hend, rfl⟩ := hstep
      exact (h.set hi (.failed hp) hend
        (h.references.set_of_not hflight.not_waiting hflight.not_connected)
        (h.descriptors.close hflight hp.not_inFlight)).recount _ _ _
  | discard i =>
      obtain ⟨hi, hflight, p, hp, -, rfl⟩ := hstep
      exact (h.vacate hi hp
        (h.descriptors.close hflight (not_inFlight_of_vacant hp))).recount _ _ _
  | dispatch i =>
      obtain ⟨hi, hflight, p, kernel, cs, hp, hsame, hkernel, hcs, -, rfl⟩ := hstep
      exact (h.dispatch hi hflight hp hsame hkernel (hcs.imp_left And.right)).recount _ _ _
  | requeue i =>
      obtain ⟨hi, hfailed, p, hp, hend, rfl⟩ := hstep
      exact (h.requeue hi hfailed hp hend).recount _ _ _

end Registry

end TorrentEngine.Ledger
