import TorrentEngine.TrackerSystem

/-! What becomes of one tracker. A tracker is in the manager space, with the HTTP handler, or in neither
place; its index in the manager space is bookkeeping. Each operation of the manager, as long as the
bookkeeping is right, is an edit of one tracker that leaves the others as they are. -/

open Transition SwapRemoval

namespace TorrentEngine

open Tracker

namespace TrackerManager

variable {manager : TrackerManager}

theorem find_store_of_ne {name n : ByteString} (h : n ≠ name) (tracker : Tracker) :
    (manager.store name tracker).find n = manager.find n := by
  rw [find, find, store]
  dsimp only
  generalize manager.trackerConnections = entries
  induction entries with
  | nil => rfl
  | cons entry entries ih =>
      obtain ⟨key, value⟩ := entry
      rw [List.map_cons, List.lookup_cons]
      by_cases hkey : key = name
      · have hne : (n == name) = false := beq_eq_false_iff_ne.mpr h
        rw [if_pos hkey, List.lookup_cons, hne, hkey, hne]
        exact ih
      · rw [if_neg hkey, List.lookup_cons]
        dsimp only
        split
        · rfl
        · exact ih

theorem find_change (name n : ByteString) (f : Tracker → Tracker) :
    (manager.change name f).find n =
      if n = name then (manager.find n).map f else manager.find n := by
  rw [change]
  split
  · rename_i hnone
    split
    · rename_i heq
      rw [heq, hnone]
      rfl
    · rfl
  · rename_i tracker hsome
    split
    · rename_i heq
      rw [heq, hsome]
      exact find_store hsome _
    · rename_i hne
      exact find_store_of_ne hne _

theorem keys_store (name : ByteString) (tracker : Tracker) :
    (manager.store name tracker).trackerConnections.map Prod.fst =
      manager.trackerConnections.map Prod.fst := by
  rw [store]
  dsimp only
  rw [List.map_map]
  refine List.map_congr_left fun entry _ => ?_
  rw [Function.comp_apply]
  split
  · rename_i heq
    exact heq.symm
  · rfl

theorem keys_change (name : ByteString) (f : Tracker → Tracker) :
    (manager.change name f).trackerConnections.map Prod.fst =
      manager.trackerConnections.map Prod.fst := by
  rw [change]
  split
  · rfl
  · exact keys_store name _

/-- A change in the map leaves the rest of the manager alone. -/
theorem change_eq (name : ByteString) (f : Tracker → Tracker) :
    ∃ trackerConnections, manager.change name f = { manager with trackerConnections } := by
  rw [change]
  split
  · exact ⟨_, rfl⟩
  · exact ⟨_, rfl⟩

end TrackerManager

/-! ### Places -/

inductive Place where
  | space
  | protocol
  | neither
  deriving DecidableEq

/-- A tracker, but for its index in the manager space, and where it is. -/
structure Life where
  tracker : Tracker
  place : Place

namespace Life

/-! What the handlers do to a tracker in the manager space. -/

def reannounced (a : Life) : Life :=
  if a.tracker.Reannounced then ⟨disarm .maximum a.tracker, .protocol⟩ else a

def forced (a : Life) : Life :=
  if a.tracker.state = .active then ⟨disarm .maximum (disarm .minimum a.tracker), .protocol⟩ else a

/-- An inactive tracker goes nowhere. -/
def shutDown (a : Life) : Life :=
  if a.tracker.state = .inactive then ⟨disarm .maximum a.tracker, .neither⟩
  else if a.tracker.timers.type = .two then
    ⟨disarm .minimum (disarm .maximum a.tracker), .protocol⟩
  else ⟨disarm .maximum a.tracker, .protocol⟩

end Life

namespace Tracker

def unplaced (tracker : Tracker) : Tracker := tracker.setManagerSpaceIdx 0

/-- A change of a tracker that does not touch its index or its name. -/
structure Placeless (f : Tracker → Tracker) : Prop where
  idx : ∀ tracker, (f tracker).context.managerSpaceIdx = tracker.context.managerSpaceIdx
  domain : ∀ tracker, (f tracker).announceUrl.domainName = tracker.announceUrl.domainName
  unplaced : ∀ tracker, (f tracker).unplaced = f tracker.unplaced

theorem placeless_disarm (which : TimerName) : Placeless (disarm which) := by
  cases which
  · exact ⟨fun _ => rfl, fun _ => rfl, fun _ => rfl⟩
  · exact ⟨fun _ => rfl, fun _ => rfl, fun _ => rfl⟩

theorem placeless_setInterruptible : Placeless setInterruptible :=
  ⟨fun _ => rfl, fun _ => rfl, fun _ => rfl⟩

theorem placeless_clearData : Placeless clearData := ⟨fun _ => rfl, fun _ => rfl, fun _ => rfl⟩

theorem placeless_start : Placeless start := ⟨fun _ => rfl, fun _ => rfl, fun _ => rfl⟩

/-- The tracker at an http url of its list. -/
def atUrl (currentIdx : Nat) (tracker : Tracker) : Tracker :=
  { tracker with announceUrl := { tracker.announceUrl with currentIdx }, currentProto := .http }

theorem seekHttpUrl_atUrl {turns : Nat} {tracker tracker' : Tracker} {exhausted : Bool}
    (h : seekHttpUrl turns tracker = .ok (exhausted, tracker')) : ∃ idx, tracker' = tracker.atUrl idx := by
  induction turns generalizing tracker with
  | zero => cases h
  | succ turns ih =>
      rw [seekHttpUrl] at h
      obtain ⟨⟨exhausted', next⟩, hnext, hrest⟩ := Except.bind_eq_ok.mp h
      obtain ⟨idx, hidx⟩ : ∃ idx, next = { tracker with
          announceUrl := { tracker.announceUrl with currentIdx := idx }
          currentProto := next.currentProto } := by
        rw [seekToNextUrl] at hnext
        split at hnext
        · cases hnext
        · cases hnext
          exact ⟨_, rfl⟩
      dsimp only at hrest
      split at hrest
      · rename_i hhttp
        cases hrest
        rw [hhttp] at hidx
        exact ⟨idx, hidx⟩
      · obtain ⟨idx', rfl⟩ := ih hrest
        refine ⟨idx', ?_⟩
        rw [hidx]
        rfl

theorem seekHttp_atUrl {tracker tracker' : Tracker} (h : tracker.seekHttp = some tracker') :
    ∃ idx, tracker' = tracker.atUrl idx := by
  rw [seekHttp] at h
  split at h
  · rename_i hhttp
    cases h
    refine ⟨tracker.announceUrl.currentIdx, ?_⟩
    rw [atUrl, ← hhttp]
  · split at h
    · rename_i hseek
      cases h
      exact seekHttpUrl_atUrl hseek
    · cases h

/-! The tests of the handlers do not read the index. -/

theorem waiting_congr {tracker tracker' : Tracker} (h : tracker.unplaced = tracker') :
    tracker.Waiting ↔ tracker'.Waiting := by
  rw [← h]
  rfl

theorem reannounced_congr {tracker tracker' : Tracker} (h : tracker.unplaced = tracker') :
    tracker.Reannounced ↔ tracker'.Reannounced := by
  rw [← h]
  rfl

theorem state_congr {tracker tracker' : Tracker} (h : tracker.unplaced = tracker') :
    tracker.state = tracker'.state := by
  rw [← h]
  rfl

theorem type_congr {tracker tracker' : Tracker} (h : tracker.unplaced = tracker') :
    tracker.timers.type = tracker'.timers.type := by
  rw [← h]
  rfl

end Tracker

namespace TrackerWorld

def place (w : TrackerWorld) (name : ByteString) : Place :=
  if name ∈ w.space then .space else if name ∈ w.requests then .protocol else .neither

def life (w : TrackerWorld) (name : ByteString) : Option Life :=
  (w.find name).map fun tracker => ⟨tracker.unplaced, w.place name⟩

/-- What the handlers of one event leave alone. -/
def surroundings (w : TrackerWorld) : EventLoop × Rat × (ByteString → Rat) :=
  (w.loop, w.clock, w.askedUntil)

/-- The bookkeeping of the manager is right: its space holds trackers of the map, each once and at its
index, and none whose request is with the HTTP handler. -/
structure Placed (w : TrackerWorld) : Prop where
  keys : (w.manager.trackerConnections.map Prod.fst).Nodup
  domains : ∀ n tracker, w.find n = some tracker → tracker.announceUrl.domainName = n
  nodup : w.space.Nodup
  indexed : ∀ i n, w.space[i]? = some n →
    ∃ tracker, w.find n = some tracker ∧ tracker.context.managerSpaceIdx = i
  disjoint : ∀ n ∈ w.space, n ∉ w.requests

variable {w w' w₁ : TrackerWorld} {name n : ByteString} {a a₁ a' : Life} {tracker : Tracker}

theorem place_eq_space : w.place name = .space ↔ name ∈ w.space := by
  rw [place]
  split_ifs <;> simp_all

theorem place_eq_protocol : w.place name = .protocol ↔ name ∉ w.space ∧ name ∈ w.requests := by
  rw [place]
  split_ifs <;> simp_all

theorem place_eq_neither : w.place name = .neither ↔ name ∉ w.space ∧ name ∉ w.requests := by
  rw [place]
  split_ifs <;> simp_all

theorem place_congr (hspace : n ∈ w'.space ↔ n ∈ w.space)
    (hrequests : n ∈ w'.requests ↔ n ∈ w.requests) : w'.place n = w.place n := by
  rw [place, place]
  simp only [hspace, hrequests]

theorem life_eq_some : w.life name = some a ↔
    ∃ tracker, w.find name = some tracker ∧ tracker.unplaced = a.tracker ∧ w.place name = a.place := by
  rw [life, Option.map_eq_some_iff]
  constructor
  · rintro ⟨tracker, hfind, rfl⟩
    exact ⟨tracker, hfind, rfl, rfl⟩
  · rintro ⟨tracker, hfind, htracker, hplace⟩
    refine ⟨tracker, hfind, ?_⟩
    rw [htracker, hplace]

theorem life_of_find (hfind : w.find name = some tracker) :
    w.life name = some ⟨tracker.unplaced, w.place name⟩ :=
  life_eq_some.mpr ⟨tracker, hfind, rfl, rfl⟩

theorem life_eq_none : w.life name = none ↔ w.find name = none := Option.map_eq_none_iff

theorem life_congr (hfind : (w'.find n).map Tracker.unplaced = (w.find n).map Tracker.unplaced)
    (hplace : w'.place n = w.place n) : w'.life n = w.life n := by
  have hlife : ∀ v : TrackerWorld, v.life n =
      ((v.find n).map Tracker.unplaced).map fun tracker => ⟨tracker, v.place n⟩ := by
    intro v
    rw [life, Option.map_map]
    rfl
  rw [hlife w', hlife w, hfind, hplace]

theorem Placed.life_of_mem (h : Placed w) (hn : n ∈ w.space) : ∃ a, w.life n = some a ∧ a.place = .space := by
  obtain ⟨i, hi⟩ := List.mem_iff_getElem?.mp hn
  obtain ⟨tracker, hfind, -⟩ := h.indexed i n hi
  exact ⟨_, life_of_find hfind, place_eq_space.mpr hn⟩

theorem Placed.place_of_request (h : Placed w) (hmem : name ∈ w.requests) : w.place name = .protocol :=
  place_eq_protocol.mpr ⟨fun hspace => h.disjoint name hspace hmem, hmem⟩

/-! ### Edits -/

/-- One tracker is as given, the others are as they were, and failed checks are to be blamed on it. -/
structure Edit (Blame : TrackerCheck → Prop) (w w' : TrackerWorld) (name : ByteString) (a' : Life) :
    Prop where
  placed : Placed w'
  acted : w'.life name = some a'
  others : ∀ n, n ≠ name → w'.life n = w.life n
  checks : ∀ c ∈ w'.failedChecks, c ∈ w.failedChecks ∨ Blame c
  surroundings : w'.surroundings = w.surroundings

variable {Blame : TrackerCheck → Prop}

theorem Edit.refl (h : Placed w) (hlife : w.life name = some a) : Edit Blame w w name a :=
  ⟨h, hlife, fun _ _ => rfl, fun _ hc => Or.inl hc, rfl⟩

theorem Edit.trans (h : Edit Blame w w₁ name a₁) (h' : Edit Blame w₁ w' name a') :
    Edit Blame w w' name a' where
  placed := h'.placed
  acted := h'.acted
  others n hn := (h'.others n hn).trans (h.others n hn)
  checks c hc := (h'.checks c hc).elim (h.checks c) Or.inr
  surroundings := h'.surroundings.trans h.surroundings

theorem Placed.congr (h : Placed w)
    (hconnections : w'.manager.trackerConnections = w.manager.trackerConnections)
    (hspace : w'.space = w.space) (hrequests : w'.requests = w.requests) : Placed w' := by
  have hfind : ∀ n, w'.find n = w.find n := by
    intro n
    rw [find, find, TrackerManager.find, TrackerManager.find, hconnections]
  refine ⟨hconnections ▸ h.keys, fun n tracker hn => ?_, hspace ▸ h.nodup, fun i n hi => ?_, ?_⟩
  · exact h.domains n tracker ((hfind n).symm.trans hn)
  · rw [hfind]
    exact h.indexed i n (hspace ▸ hi)
  · rw [hspace, hrequests]
    exact h.disjoint

/-- A check that fails is to be blamed. -/
theorem check_edit (h : Placed w) (hlife : w.life name = some a) {c : TrackerCheck} {expected : Prop}
    [Decidable expected] (hblame : ¬ expected → Blame c) :
    Edit Blame w (w.check c expected) name a ∧ (w.check c expected).space = w.space := by
  unfold check
  split
  · exact ⟨Edit.refl h hlife, rfl⟩
  · rename_i hfails
    refine ⟨⟨h.congr rfl rfl rfl, hlife, fun _ _ => rfl, fun c' hc' => ?_, rfl⟩, rfl⟩
    rcases List.mem_cons.mp hc' with rfl | hold
    · exact Or.inr (hblame hfails)
    · exact Or.inl hold

theorem find_change (w : TrackerWorld) (name n : ByteString) (f : Tracker → Tracker) :
    (w.change name f).find n = if n = name then (w.find n).map f else w.find n :=
  TrackerManager.find_change name n f

/-- A change in the map leaves the rest of the world alone. -/
theorem change_eq (w : TrackerWorld) (name : ByteString) (f : Tracker → Tracker) :
    ∃ trackerConnections, w.change name f = { w with manager := { w.manager with trackerConnections } } := by
  obtain ⟨trackerConnections, heq⟩ := @TrackerManager.change_eq w.manager name f
  exact ⟨trackerConnections, by rw [change, heq]⟩

/-- One tracker of the map is as given, and no other has changed. -/
structure Stored (w w' : TrackerWorld) (name : ByteString) (tracker : Tracker) : Prop where
  keys : w'.manager.trackerConnections.map Prod.fst = w.manager.trackerConnections.map Prod.fst
  self : w'.find name = some tracker
  others : ∀ n, n ≠ name → w'.find n = w.find n
  requests : w'.requests = w.requests
  failedChecks : w'.failedChecks = w.failedChecks
  surroundings : w'.surroundings = w.surroundings

/-- A tracker that is stored with the right index, where the cells of the others stay as they are. -/
theorem Stored.edit (hstored : Stored w w' name tracker) (h : Placed w)
    (hdomain : tracker.announceUrl.domainName = name) (hnodup : w'.space.Nodup)
    (hcells : ∀ (i : Nat) n, n ≠ name → (w'.space[i]? = some n ↔ w.space[i]? = some n))
    (hcell : ∀ i : Nat, w'.space[i]? = some name → tracker.context.managerSpaceIdx = i)
    (hrequest : name ∈ w'.space → name ∉ w.requests) :
    Edit Blame w w' name ⟨tracker.unplaced, w'.place name⟩ := by
  have hmem : ∀ n, n ≠ name → (n ∈ w'.space ↔ n ∈ w.space) := by
    intro n hn
    rw [List.mem_iff_getElem?, List.mem_iff_getElem?]
    exact exists_congr fun i => hcells i n hn
  refine ⟨⟨hstored.keys ▸ h.keys, fun n found hn => ?_, hnodup, fun i n hi => ?_, fun n hn => ?_⟩,
    life_of_find hstored.self, fun n hn => ?_, fun c hc => ?_, hstored.surroundings⟩
  · by_cases heq : n = name
    · rw [heq, hstored.self] at hn
      cases hn
      rw [heq, hdomain]
    · exact h.domains n found ((hstored.others n heq).symm.trans hn)
  · by_cases heq : n = name
    · rw [heq] at hi ⊢
      exact ⟨tracker, hstored.self, hcell i hi⟩
    · obtain ⟨found, hfound, hidx⟩ := h.indexed i n ((hcells i n heq).mp hi)
      exact ⟨found, (hstored.others n heq).trans hfound, hidx⟩
  · rw [hstored.requests]
    by_cases heq : n = name
    · rw [heq] at hn ⊢
      exact hrequest hn
    · exact h.disjoint n ((hmem n heq).mp hn)
  · exact life_congr (by rw [hstored.others n hn]) (place_congr (hmem n hn) (by rw [hstored.requests]))
  · rw [hstored.failedChecks] at hc
    exact Or.inl hc

theorem change_edit (h : Placed w) (hlife : w.life name = some a) {f : Tracker → Tracker}
    (hf : Placeless f) :
    Edit Blame w (w.change name f) name ⟨f a.tracker, a.place⟩ ∧
      (w.change name f).space = w.space := by
  obtain ⟨trackerConnections, heq⟩ := change_eq w name f
  have hspace : (w.change name f).space = w.space := by rw [heq]; rfl
  have hrequests : (w.change name f).requests = w.requests := by rw [heq]
  obtain ⟨tracker, hfind, htracker, hat⟩ := life_eq_some.mp hlife
  have hstored : Stored w (w.change name f) name (f tracker) := by
    refine ⟨TrackerManager.keys_change name f, ?_, fun n hn => ?_, hrequests, ?_, ?_⟩
    · rw [find_change, if_pos rfl, hfind]
      rfl
    · rw [find_change, if_neg hn]
    · rw [heq]
    · rw [heq]
      rfl
  have hcell : ∀ i : Nat, w.space[i]? = some name → (f tracker).context.managerSpaceIdx = i := by
    intro i hi
    obtain ⟨found, hfound, hidx⟩ := h.indexed i name hi
    cases hfind.symm.trans hfound
    exact (hf.idx tracker).trans hidx
  have hedit := @Stored.edit w _ name (f tracker) Blame hstored h
    ((hf.domain tracker).trans (h.domains name tracker hfind)) (hspace ▸ h.nodup)
    (fun i n _ => by rw [hspace]) (hspace ▸ hcell) (hspace ▸ h.disjoint name)
  have hplace : (w.change name f).place name = a.place :=
    (place_congr (by rw [hspace]) (by rw [hrequests])).trans hat
  rw [hplace, hf.unplaced, htracker] at hedit
  exact ⟨hedit, hspace⟩

/-- What `send_to_protocol_space` does for a tracker in the manager space, at its index `k`. -/
structure Sent (w w' : TrackerWorld) (name last : ByteString) (k : Nat) : Prop where
  position : w.space[k]? = some name
  at_end : w.space[w.space.length - 1]? = some last
  space : w'.space = removeAt w.space k
  found : ∀ n, w'.find n = if n = last then (w.find n).map (setManagerSpaceIdx k) else w.find n
  keys : w'.manager.trackerConnections.map Prod.fst = w.manager.trackerConnections.map Prod.fst
  requests : w'.requests = w.requests
  failedChecks : w'.failedChecks = w.failedChecks
  surroundings : w'.surroundings = w.surroundings

theorem sendToProtocolSpace_sent (h : Placed w) (hmem : name ∈ w.space) :
    ∃ last k, Sent w (w.sendToProtocolSpace name) name last k := by
  obtain ⟨k, hk⟩ := List.mem_iff_getElem?.mp hmem
  obtain ⟨tracker, hfind, hidx⟩ := h.indexed k name hk
  obtain ⟨last, hlast⟩ : ∃ last, w.space.getLast? = some last :=
    Option.isSome_iff_exists.mp (List.getLast?_isSome.mpr (List.ne_nil_of_mem hmem))
  have hsend : w.sendToProtocolSpace name =
      { w.change last (setManagerSpaceIdx k) with
        manager := { (w.change last (setManagerSpaceIdx k)).manager with
          managerSpace := removeAt (w.change last (setManagerSpaceIdx k)).space k } } := by
    unfold sendToProtocolSpace check
    rw [if_pos ⟨hmem, h.disjoint name hmem⟩]
    dsimp only
    rw [hlast, hfind]
    dsimp only
    rw [hidx]
  have hfound := find_change w last
  have hkeys := @TrackerManager.keys_change w.manager last (setManagerSpaceIdx k)
  obtain ⟨trackerConnections, heq⟩ := change_eq w last (setManagerSpaceIdx k)
  refine ⟨last, k, hk, List.getLast?_eq_getElem?.symm.trans hlast, ?_, fun n => ?_, ?_, ?_, ?_, ?_⟩
  · rw [hsend, heq]
    rfl
  · rw [hsend]
    exact hfound n _
  · rw [hsend]
    exact hkeys
  · rw [hsend, heq]
  · rw [hsend, heq]
  · rw [hsend, heq]
    rfl

variable {last : ByteString} {k : Nat}

theorem Sent.unplaced (h : Sent w w' name last k) (n : ByteString) :
    (w'.find n).map Tracker.unplaced = (w.find n).map Tracker.unplaced := by
  rw [h.found]
  split
  · rw [Option.map_map]
    rfl
  · rfl

theorem Sent.mem_space (h : Sent w w' name last k) (hw : Placed w) :
    n ∈ w'.space ↔ n ∈ w.space ∧ n ≠ name := by
  rw [h.space]
  exact mem_removeAt hw.nodup h.position

theorem Sent.placed (h : Sent w w' name last k) (hw : Placed w) : Placed w' := by
  obtain ⟨hklt, -⟩ := List.getElem?_eq_some_iff.mp h.position
  refine ⟨by rw [h.keys]; exact hw.keys, ?_, ?_, ?_, ?_⟩
  · intro n found hn
    rw [h.found] at hn
    split at hn
    · obtain ⟨before, hbefore, rfl⟩ := Option.map_eq_some_iff.mp hn
      exact hw.domains n before hbefore
    · exact hw.domains n found hn
  · rw [h.space]
    exact nodup_removeAt hw.nodup k hklt
  · intro i n hi
    rw [h.space] at hi
    obtain ⟨hilt, -⟩ := List.getElem?_eq_some_iff.mp hi
    rw [length_removeAt] at hilt
    rw [getElem?_removeAt _ _ _ (by omega)] at hi
    rw [h.found]
    split at hi
    · rename_i hik
      rw [List.getLast?_eq_getElem?] at hi
      cases h.at_end.symm.trans hi
      obtain ⟨before, hbefore, -⟩ := hw.indexed _ last h.at_end
      exact ⟨setManagerSpaceIdx k before, by rw [if_pos rfl, hbefore]; rfl, hik.symm⟩
    · have hne : n ≠ last := by
        rintro rfl
        exact List.nodup_iff_getElem?_ne_getElem?.mp hw.nodup i (w.space.length - 1) (by omega)
          (by omega) (hi.trans h.at_end.symm)
      rw [if_neg hne]
      exact hw.indexed i n hi
  · intro n hn
    rw [h.requests]
    exact hw.disjoint n ((h.mem_space hw).mp hn).1

/-- A tracker in the manager space is removed from it. -/
theorem send_edit (h : Placed w) (hlife : w.life name = some a) (hin : a.place = .space) :
    Edit Blame w (w.sendToProtocolSpace name) name ⟨a.tracker, .neither⟩ ∧
      ∃ k, w.space[k]? = some name ∧ (w.sendToProtocolSpace name).space = removeAt w.space k := by
  obtain ⟨tracker, hfind, htracker, hat⟩ := life_eq_some.mp hlife
  have hmem : name ∈ w.space := place_eq_space.mp (hat.trans hin)
  obtain ⟨last, k, hsent⟩ := sendToProtocolSpace_sent h hmem
  refine ⟨⟨hsent.placed h, ?_, ?_, ?_, hsent.surroundings⟩, k, hsent.position, hsent.space⟩
  · have hself := hsent.unplaced name
    rw [hfind, Option.map_some, htracker] at hself
    obtain ⟨found, hfound, hunplaced⟩ := Option.map_eq_some_iff.mp hself
    refine life_eq_some.mpr ⟨found, hfound, hunplaced, place_eq_neither.mpr ⟨?_, ?_⟩⟩
    · exact fun hn => ((hsent.mem_space h).mp hn).2 rfl
    · rw [hsent.requests]
      exact h.disjoint name hmem
  · intro n hn
    refine life_congr (hsent.unplaced n) (place_congr ?_ (by rw [hsent.requests]))
    rw [hsent.mem_space h]
    exact and_iff_left hn
  · intro c hc
    rw [hsent.failedChecks] at hc
    exact Or.inl hc

/-- A tracker in neither place has its request given to the HTTP handler. -/
theorem addRequest_edit (h : Placed w) (hlife : w.life name = some a) (hout : a.place = .neither)
    (hproto : a.tracker.currentProto = .http) :
    Edit Blame w (w.addRequest name) name ⟨a.tracker, .protocol⟩ ∧
      (w.addRequest name).space = w.space := by
  obtain ⟨tracker, hfind, htracker, hat⟩ := life_eq_some.mp hlife
  obtain ⟨hspace, hrequests⟩ := place_eq_neither.mp (hat.trans hout)
  have hhttp : tracker.currentProto = .http := by
    rw [← hproto, ← htracker]
    rfl
  have hadd : w.addRequest name = { w with requests := w.requests ++ [name] } := by
    rw [addRequest, hfind]
    exact if_pos ⟨hhttp, hrequests⟩
  rw [hadd]
  refine ⟨⟨⟨h.keys, h.domains, h.nodup, h.indexed, ?_⟩, ?_, ?_, fun _ hc => Or.inl hc, rfl⟩, rfl⟩
  · intro n hn hmem
    rcases List.mem_append.mp hmem with hold | hnew
    · exact h.disjoint n hn hold
    · rw [List.mem_singleton.mp hnew] at hn
      exact hspace hn
  · refine life_eq_some.mpr ⟨tracker, hfind, htracker, ?_⟩
    exact place_eq_protocol.mpr ⟨hspace, List.mem_append_right _ (List.mem_singleton_self name)⟩
  · intro n hn
    refine life_congr rfl (place_congr Iff.rfl ?_)
    rw [List.mem_append, List.mem_singleton]
    exact or_iff_left hn

theorem handOver_edit (h : Placed w) (hlife : w.life name = some a) (hin : a.place = .space)
    (hproto : a.tracker.currentProto = .http) :
    Edit Blame w ((w.sendToProtocolSpace name).addRequest name) name ⟨a.tracker, .protocol⟩ ∧
      ∃ k, w.space[k]? = some name ∧
        ((w.sendToProtocolSpace name).addRequest name).space = removeAt w.space k := by
  obtain ⟨hsend, k, hk, hspace⟩ := send_edit h hlife hin
  obtain ⟨hadd, hkeep⟩ := addRequest_edit hsend.placed hsend.acted rfl hproto
  exact ⟨hsend.trans hadd, k, hk, hkeep.trans hspace⟩

/-- Both timers of a tracker in the manager space: the end of its minimum interval, or an announce. -/
theorem timeout_edit (h : Placed w) (hlife : w.life name = some a) (hin : a.place = .space)
    (hproto : a.tracker.currentProto = .http) (which : TimerName) :
    Edit Blame w (w.trackerTimeoutHandler name which) name
      (if a.tracker.Waiting then ⟨setInterruptible (disarm which a.tracker), .space⟩
        else ⟨disarm which a.tracker, .protocol⟩) := by
  obtain ⟨hdisarm, -⟩ := @change_edit w name a Blame h hlife _ (placeless_disarm which)
  obtain ⟨tracker, hfind, htracker, hat⟩ := life_eq_some.mp hdisarm.acted
  have hwaiting : tracker.Waiting ↔ a.tracker.Waiting := by
    rw [waiting_congr htracker]
    cases which
    · rfl
    · rfl
  have hproto' : (disarm which a.tracker).currentProto = .http := by
    cases which
    · exact hproto
    · exact hproto
  rw [trackerTimeoutHandler, hfind]
  dsimp only
  by_cases hwaits : a.tracker.Waiting
  · rw [if_pos hwaits, if_pos (hwaiting.mpr hwaits)]
    have hset := (@change_edit _ name _ Blame hdisarm.placed hdisarm.acted _ placeless_setInterruptible).1
    rw [hin] at hset hdisarm
    exact hdisarm.trans hset
  · rw [if_neg hwaits, if_neg fun hnow => hwaits (hwaiting.mp hnow)]
    exact hdisarm.trans (handOver_edit hdisarm.placed hdisarm.acted hin hproto').1

/-! ### Loops -/

/-- What a loop has done when it has edited the trackers with these names. -/
structure Edited (Acts : Life → Life → Prop) (Faults : ByteString → Life → TrackerCheck → Prop)
    (names : List ByteString) (w w' : TrackerWorld) : Prop where
  placed : Placed w'
  acted : ∀ n ∈ names, ∀ a, w.life n = some a → ∃ a', w'.life n = some a' ∧ Acts a a'
  others : ∀ n, n ∉ names → w'.life n = w.life n
  checks : ∀ c ∈ w'.failedChecks, c ∈ w.failedChecks ∨
    ∃ n ∈ names, ∃ a, w.life n = some a ∧ Faults n a c
  surroundings : w'.surroundings = w.surroundings

variable {Acts : Life → Life → Prop} {Faults : ByteString → Life → TrackerCheck → Prop}
  {names : List ByteString}

/-- The trackers of a loop are edited once each. -/
theorem not_mem_of_nodup_append (h : (names ++ [name]).Nodup) : name ∉ names := fun hmem =>
  (List.nodup_append.mp h).2.2 name hmem name (List.mem_singleton_self name) rfl

theorem Edited.nil (h : Placed w) : Edited Acts Faults [] w w where
  placed := h
  acted _ hn := absurd hn (List.not_mem_nil)
  others _ _ := rfl
  checks _ hc := Or.inl hc
  surroundings := rfl

theorem Edited.snoc (h : Edited Acts Faults names w w₁) (hnew : name ∉ names)
    (hlife : w.life name = some a) (hedit : Edit (Faults name a) w₁ w' name a') (hacts : Acts a a') :
    Edited Acts Faults (names ++ [name]) w w' where
  placed := hedit.placed
  acted n hn b hb := by
    rcases List.mem_append.mp hn with hold | hlast
    · have hne : n ≠ name := fun heq => hnew (heq ▸ hold)
      rw [hedit.others n hne]
      exact h.acted n hold b hb
    · rw [List.mem_singleton.mp hlast] at hb ⊢
      cases hlife.symm.trans hb
      exact ⟨a', hedit.acted, hacts⟩
  others n hn := by
    rw [List.mem_append, List.mem_singleton, not_or] at hn
    exact (hedit.others n hn.2).trans (h.others n hn.1)
  checks c hc := by
    rcases hedit.checks c hc with hold | hfault
    · rcases h.checks c hold with hfirst | ⟨n, hn, b, hb, hfault⟩
      · exact Or.inl hfirst
      · exact Or.inr ⟨n, List.mem_append_left _ hn, b, hb, hfault⟩
    · exact Or.inr ⟨name, List.mem_append_right _ (List.mem_singleton_self name), a, hlife, hfault⟩
  surroundings := hedit.surroundings.trans h.surroundings

/-- One turn of a range loop, for a tracker in the manager space: an edit that may remove it. -/
structure Turn (Blame : TrackerCheck → Prop) (w w' : TrackerWorld) (name : ByteString) (a' : Life) :
    Prop extends Edit Blame w w' name a' where
  moved : w'.space = w.space ∨ ∃ k, w.space[k]? = some name ∧ w'.space = removeAt w.space k

/-- What a range loop needs of its body, in every world that the loop comes to. -/
def Turns (body : TrackerWorld → ByteString → TrackerWorld) (f : Life → Life)
    (Faults : ByteString → Life → TrackerCheck → Prop) (w : TrackerWorld) : Prop :=
  ∀ w₁ name a, Placed w₁ → w₁.surroundings = w.surroundings → w.life name = some a →
    w₁.life name = some a → a.place = .space → Turn (Faults name a) w₁ (body w₁ name) name (f a)

variable {f : Life → Life} {cells : List ByteString} {i : Nat}
  {body : TrackerWorld → ByteString → TrackerWorld}

/-- The range loop is about to read cell `i`. -/
structure Swept (f : Life → Life) (Faults : ByteString → Life → TrackerCheck → Prop)
    (w w' : TrackerWorld) (cells : List ByteString) (i : Nat) : Prop where
  sweep : Sweep w.space w'.space cells i
  edited : Edited (fun a a' => a' = f a) Faults (w.space.take i) w w'

theorem Swept.turn (h : Placed w) (hbody : Turns body f Faults w) (hswept : Swept f Faults w w₁ cells i)
    (hi : w.space[i]? = some name) :
    Swept f Faults w (body w₁ name) (cellsAfter (body w₁ name).space cells) (i + 1) := by
  have hcell : cells[i]? = some name := (hswept.sweep.ahead i (Nat.le_refl i)).trans hi
  obtain ⟨a, hlife, hin⟩ := h.life_of_mem (List.mem_of_getElem? hi)
  have htake : w.space.take (i + 1) = w.space.take i ++ [name] := by
    rw [List.take_add_one, hi]
    rfl
  have hnew : name ∉ w.space.take i := by
    have hnodup : (w.space.take i ++ [name]).Nodup := by
      rw [← htake]
      exact h.nodup.sublist (List.take_sublist _ _)
    exact not_mem_of_nodup_append hnodup
  have hnow : w₁.life name = some a := (hswept.edited.others name hnew).trans hlife
  have hturn := hbody w₁ name a hswept.edited.placed hswept.edited.surroundings hlife hnow hin
  refine ⟨?_, ?_⟩
  · rcases hturn.moved with hkeep | ⟨k, hk, hremove⟩
    · rw [hkeep]
      exact hswept.sweep.keep
    · rw [hremove]
      exact hswept.sweep.remove h.nodup hswept.edited.placed.nodup hcell hk
  · rw [htake]
    exact hswept.edited.snoc hnew hlife hturn.toEdit rfl

theorem sweep_swept (h : Placed w) (hbody : Turns body f Faults w) {turns : Nat}
    (hswept : Swept f Faults w w₁ cells i) (hturns : i + turns = w.space.length) :
    Edited (fun a a' => a' = f a) Faults w.space w (sweep body turns i cells w₁) := by
  induction turns generalizing i cells w₁ with
  | zero =>
      have hedited := hswept.edited
      rw [List.take_of_length_le (by omega)] at hedited
      exact hedited
  | succ turns ih =>
      obtain ⟨name, hi⟩ : ∃ name, w.space[i]? = some name :=
        ⟨_, List.getElem?_eq_getElem (by omega)⟩
      have hcell : cells[i]? = some name := (hswept.sweep.ahead i (Nat.le_refl i)).trans hi
      rw [sweep, hcell]
      exact ih (hswept.turn h hbody hi) (by omega)

/-- A range loop does to each tracker in the manager space what its body does. -/
theorem overManagerSpace_edited (h : Placed w) (hbody : Turns body f Faults w) :
    Edited (fun a a' => a' = f a) Faults w.space w (w.overManagerSpace body) := by
  refine sweep_swept h hbody ⟨Sweep.start w.space, ?_⟩ (Nat.zero_add _)
  rw [List.take_zero]
  exact Edited.nil h

/-! ### The handlers -/

theorem proto_disarm (which : TimerName) (tracker : Tracker) :
    (disarm which tracker).currentProto = tracker.currentProto := by
  cases which
  · rfl
  · rfl

theorem Edit.turn (h : Edit Blame w w₁ name a₁) (hspace : w₁.space = w.space)
    (h' : Edit Blame w₁ w' name a') {k : Nat} (hk : w₁.space[k]? = some name)
    (hremove : w'.space = removeAt w₁.space k) : Turn Blame w w' name a' := by
  rw [hspace] at hk hremove
  exact ⟨h.trans h', Or.inr ⟨k, hk, hremove⟩⟩

theorem reannounceTracker_turn (h : Placed w) (hlife : w.life name = some a) (hin : a.place = .space)
    (hproto : a.tracker.currentProto = .http)
    (hblame : a.tracker.Reannounced → ¬ w.askedUntil name ≤ w.clock → Blame .minimumElapsed) :
    Turn Blame w (w.reannounceTracker name) name a.reannounced := by
  obtain ⟨tracker, hfind, htracker, -⟩ := life_eq_some.mp hlife
  rw [reannounceTracker, hfind, Life.reannounced]
  dsimp only
  by_cases heligible : a.tracker.Reannounced
  · rw [if_pos ((reannounced_congr htracker).mpr heligible), if_pos heligible]
    obtain ⟨hcheck, hspace⟩ := check_edit h hlife (hblame heligible)
    obtain ⟨hdisarm, hspace'⟩ :=
      @change_edit _ name _ Blame hcheck.placed hcheck.acted _ (placeless_disarm .maximum)
    obtain ⟨hand, k, hk, hremove⟩ := @handOver_edit _ name _ Blame hdisarm.placed hdisarm.acted hin
      ((proto_disarm _ _).trans hproto)
    exact (hcheck.trans hdisarm).turn (hspace'.trans hspace) hand hk hremove
  · rw [if_neg fun hnow => heligible ((reannounced_congr htracker).mp hnow), if_neg heligible]
    exact ⟨Edit.refl h hlife, Or.inl rfl⟩

theorem forceReannounceTracker_turn (h : Placed w) (hlife : w.life name = some a)
    (hin : a.place = .space) (hproto : a.tracker.currentProto = .http) :
    Turn Blame w (w.forceReannounceTracker name) name a.forced := by
  obtain ⟨tracker, hfind, htracker, -⟩ := life_eq_some.mp hlife
  rw [forceReannounceTracker, hfind, Life.forced]
  dsimp only
  rw [state_congr htracker]
  split
  · obtain ⟨hminimum, hspace⟩ := @change_edit w name a Blame h hlife _ (placeless_disarm .minimum)
    obtain ⟨hmaximum, hspace'⟩ :=
      @change_edit _ name _ Blame hminimum.placed hminimum.acted _ (placeless_disarm .maximum)
    obtain ⟨hand, k, hk, hremove⟩ := @handOver_edit _ name _ Blame hmaximum.placed hmaximum.acted hin
      ((proto_disarm _ _).trans ((proto_disarm _ _).trans hproto))
    exact (hminimum.trans hmaximum).turn (hspace'.trans hspace) hand hk hremove
  · exact ⟨Edit.refl h hlife, Or.inl rfl⟩

theorem shutdownTracker_turn (h : Placed w) (hlife : w.life name = some a) (hin : a.place = .space)
    (hproto : a.tracker.currentProto = .http) :
    Turn Blame w (w.shutdownTracker name) name a.shutDown := by
  obtain ⟨tracker, hfind, htracker, -⟩ := life_eq_some.mp hlife
  rw [shutdownTracker, hfind, Life.shutDown]
  dsimp only
  rw [state_congr htracker, type_congr htracker]
  obtain ⟨hmaximum, hspace⟩ := @change_edit w name a Blame h hlife _ (placeless_disarm .maximum)
  obtain ⟨hsend, k, hk, hremove⟩ := @send_edit _ name _ Blame hmaximum.placed hmaximum.acted hin
  split
  · exact hmaximum.turn hspace hsend hk hremove
  · split
    · obtain ⟨hminimum, hspace'⟩ :=
        @change_edit _ name _ Blame hsend.placed hsend.acted _ (placeless_disarm .minimum)
      obtain ⟨hadd, hspace''⟩ := @addRequest_edit _ name _ Blame hminimum.placed hminimum.acted rfl
        ((proto_disarm _ _).trans ((proto_disarm _ _).trans hproto))
      exact hmaximum.turn hspace (hsend.trans (hminimum.trans hadd)) hk
        (hspace''.trans (hspace'.trans hremove))
    · obtain ⟨hadd, hspace'⟩ := @addRequest_edit _ name _ Blame hsend.placed hsend.acted rfl
        ((proto_disarm _ _).trans hproto)
      exact hmaximum.turn hspace (hsend.trans hadd) hk (hspace'.trans hremove)

/-- A tracker in neither place is entered at the end of the manager space. -/
theorem enter_edit (h : Placed w) (hlife : w.life name = some a) (hout : a.place = .neither)
    (hdomain : tracker.announceUrl.domainName = name)
    (hentered : { w with
      manager := { w.manager with managerSpace := w.space ++ [name] }.store name
        (tracker.setManagerSpaceIdx w.space.length) } = w') :
    Edit Blame w w' name ⟨tracker.unplaced, .space⟩ := by
  obtain ⟨before, hfind, -, hat⟩ := life_eq_some.mp hlife
  obtain ⟨hspace, hrequests⟩ := place_eq_neither.mp (hat.trans hout)
  have hspace' : w'.space = w.space ++ [name] := by rw [← hentered]; rfl
  have hstored : Stored w w' name (tracker.setManagerSpaceIdx w.space.length) := by
    rw [← hentered]
    exact ⟨TrackerManager.keys_store name _,
      @TrackerManager.find_store { w.manager with managerSpace := w.space ++ [name] } name before hfind _,
      fun n hn => TrackerManager.find_store_of_ne hn _, rfl, rfl, rfl⟩
  have hcells : ∀ (i : Nat) n, n ≠ name → (w'.space[i]? = some n ↔ w.space[i]? = some n) := by
    intro i n hn
    rw [hspace', List.getElem?_append]
    split
    · exact Iff.rfl
    · rename_i hge
      refine ⟨fun hi => ?_, fun hi => ?_⟩
      · exact absurd (List.mem_singleton.mp (List.mem_of_getElem? hi)) hn
      · exact absurd (List.getElem?_eq_some_iff.mp hi).1 hge
  have hcell : ∀ i : Nat, w'.space[i]? = some name →
      (tracker.setManagerSpaceIdx w.space.length).context.managerSpaceIdx = i := by
    intro i hi
    rw [hspace', List.getElem?_append] at hi
    split at hi
    · exact absurd (List.mem_of_getElem? hi) hspace
    · obtain ⟨hlt, -⟩ := List.getElem?_eq_some_iff.mp hi
      rw [List.length_singleton] at hlt
      rw [setManagerSpaceIdx]
      dsimp only
      omega
  have hnodup : w'.space.Nodup := by
    rw [hspace']
    exact h.nodup.append (List.nodup_singleton name) (List.disjoint_singleton.mpr hspace)
  have hplace : w'.place name = .space := by
    rw [place_eq_space, hspace']
    exact List.mem_append_right _ (List.mem_singleton_self name)
  have hedit := @Stored.edit w w' name _ Blame hstored h hdomain hnodup hcells hcell fun _ => hrequests
  rwa [hplace] at hedit

/-- What a start does to a tracker in neither place, where `start` is what its second loop adds. -/
def Starts (start : Tracker → Tracker) (a a' : Life) : Prop :=
  if a.tracker.context.hasHttp then ∃ idx, a' = ⟨start (a.tracker.atUrl idx), .space⟩ else a' = a

theorem addTracker_edit {entry : ByteString × Tracker} (h : Placed w)
    (hlife : w.life entry.1 = some ⟨entry.2.unplaced, .neither⟩)
    (hdomain : entry.2.announceUrl.domainName = entry.1) (hadd : w.addTracker entry = some w') :
    ∃ a', Edit Blame w w' entry.1 a' ∧ Starts id ⟨entry.2.unplaced, .neither⟩ a' := by
  rw [addTracker] at hadd
  by_cases hhttp : entry.2.context.hasHttp
  · rw [if_pos hhttp] at hadd
    obtain ⟨tracker, hseek, heq⟩ := Option.map_eq_some_iff.mp hadd
    obtain ⟨idx, rfl⟩ := seekHttp_atUrl hseek
    obtain ⟨-, -, -, hat⟩ := life_eq_some.mp hlife
    have hcheck : w.check .startOutstanding (entry.1 ∉ w.requests) = w :=
      if_pos (place_eq_neither.mp hat).2
    rw [hcheck] at heq
    refine ⟨_, @enter_edit w w' entry.1 _ (entry.2.atUrl idx) Blame h hlife rfl hdomain heq, ?_⟩
    rw [Starts]
    exact (if_pos hhttp).mpr ⟨idx, rfl⟩
  · rw [if_neg hhttp] at hadd
    cases hadd
    refine ⟨_, Edit.refl h hlife, ?_⟩
    rw [Starts]
    exact (if_neg hhttp).mpr rfl

/-- The loop of `populate_manager_space`, some of whose turns are done. -/
theorem foldlM_addTracker_edited {entries : List (ByteString × Tracker)}
    (hentries : ∀ entry ∈ entries, w.life entry.1 = some ⟨entry.2.unplaced, .neither⟩ ∧
      entry.2.announceUrl.domainName = entry.1)
    (hkeys : (names ++ entries.map Prod.fst).Nodup) (hedited : Edited (Starts id) Faults names w w₁)
    (h : entries.foldlM addTracker w₁ = some w') :
    Edited (Starts id) Faults (names ++ entries.map Prod.fst) w w' := by
  induction entries generalizing names w₁ with
  | nil =>
      cases h
      rwa [List.map_nil, List.append_nil]
  | cons entry entries ih =>
      rw [List.foldlM_cons] at h
      obtain ⟨w₂, hadd, hrest⟩ := Option.bind_eq_some_iff.mp h
      obtain ⟨hlife, hdomain⟩ := hentries entry (List.mem_cons_self)
      have hsplit : names ++ (entry :: entries).map Prod.fst =
          names ++ [entry.1] ++ entries.map Prod.fst := by
        rw [List.map_cons, List.append_assoc, List.singleton_append]
      rw [hsplit] at hkeys ⊢
      have hnew : entry.1 ∉ names := not_mem_of_nodup_append hkeys.of_append_left
      have hnow := (hedited.others _ hnew).trans hlife
      obtain ⟨a', hedit, hstarts⟩ := addTracker_edit hedited.placed hnow hdomain hadd
      exact ih (fun e he => hentries e (List.mem_cons_of_mem _ he)) hkeys
        (hedited.snoc hnew hlife hedit hstarts) hrest

/-- Every tracker is in neither place. -/
def AllOut (w : TrackerWorld) : Prop := ∀ n a, w.life n = some a → a.place = .neither

theorem Placed.find_of_mem (h : Placed w) {entry : ByteString × Tracker}
    (hentry : entry ∈ w.manager.trackerConnections) : w.find entry.1 = some entry.2 := by
  obtain ⟨before, after, hsplit⟩ := List.append_of_mem hentry
  have hkeys := h.keys
  rw [find, TrackerManager.find, List.lookup_eq_some_iff]
  refine ⟨before, after, hsplit, fun earlier hearlier => ?_⟩
  rw [hsplit, List.map_append, List.map_cons] at hkeys
  rw [bne_iff_ne]
  exact fun heq => (List.nodup_append.mp hkeys).2.2 _ (List.mem_map_of_mem hearlier) _
    (List.mem_cons_self) heq.symm

theorem mem_keys_of_life (hlife : w.life n = some a) :
    n ∈ w.manager.trackerConnections.map Prod.fst := by
  obtain ⟨tracker, hfind, -⟩ := life_eq_some.mp hlife
  obtain ⟨before, after, hsplit, -⟩ := List.lookup_eq_some_iff.mp hfind
  rw [hsplit, List.map_append, List.map_cons]
  exact List.mem_append_right _ (List.mem_cons_self)

theorem Placed.not_mem_of_none (h : Placed w) (hlife : w.life n = none) : n ∉ w.space := by
  intro hmem
  obtain ⟨a, ha, -⟩ := h.life_of_mem hmem
  cases hlife.symm.trans ha

theorem mem_space_iff (hlife : w.life n = some a) : n ∈ w.space ↔ a.place = .space := by
  obtain ⟨-, -, -, hplace⟩ := life_eq_some.mp hlife
  rw [← hplace, place_eq_space]

theorem populateManagerSpace_edited (h : Placed w) (hout : AllOut w)
    (hpopulate : w.populateManagerSpace = some w') :
    Edited (Starts id) Faults (w.manager.trackerConnections.map Prod.fst) w w' := by
  refine foldlM_addTracker_edited ?_ h.keys (Edited.nil h) hpopulate
  intro entry hentry
  have hfind := h.find_of_mem hentry
  have hplace := hout entry.1 _ (life_of_find hfind)
  exact ⟨life_eq_some.mpr ⟨_, hfind, rfl, hplace⟩, h.domains _ _ hfind⟩

/-- The assertions of `start_event`. -/
def AssertionFails (a : Life) (c : TrackerCheck) : Prop :=
  (c = .startState ∧ a.tracker.state ≠ .null) ∨ (c = .startTimers ∧ a.tracker.timers.type ≠ .one)

theorem startTracker_edit (h : Placed w) (hlife : w.life name = some a) :
    Edit (AssertionFails a) w (w.startTracker name) name ⟨a.tracker.start, a.place⟩ := by
  obtain ⟨tracker, hfind, htracker, -⟩ := life_eq_some.mp hlife
  rw [startTracker, hfind]
  dsimp only
  have hstate := (@check_edit w name a (AssertionFails a) h hlife .startState
    (tracker.state = .null) _ fun hne => Or.inl ⟨rfl, by rwa [← state_congr htracker]⟩).1
  have htimers := (@check_edit _ name a (AssertionFails a) hstate.placed hstate.acted .startTimers
    (tracker.timers.type = .one) _ fun hne => Or.inr ⟨rfl, by rwa [← type_congr htracker]⟩).1
  have hchange := (@change_edit _ name a (AssertionFails a) htimers.placed htimers.acted _
    placeless_start).1
  exact (hstate.trans htimers).trans hchange

theorem foldl_startTracker_edited {rest : List ByteString} (hrest : ∀ n ∈ rest, ∃ a, w.life n = some a)
    (hnodup : (names ++ rest).Nodup)
    (hedited : Edited (fun a a' => a' = ⟨a.tracker.start, a.place⟩) (fun _ => AssertionFails) names w w₁) :
    Edited (fun a a' => a' = ⟨a.tracker.start, a.place⟩) (fun _ => AssertionFails) (names ++ rest) w
      (rest.foldl startTracker w₁) := by
  induction rest generalizing names w₁ with
  | nil => rwa [List.append_nil]
  | cons name rest ih =>
      obtain ⟨a, hlife⟩ := hrest name (List.mem_cons_self)
      have hsplit : names ++ name :: rest = names ++ [name] ++ rest := by
        rw [List.append_assoc, List.singleton_append]
      rw [hsplit] at hnodup ⊢
      have hnew : name ∉ names := not_mem_of_nodup_append hnodup.of_append_left
      have hnow := (hedited.others _ hnew).trans hlife
      exact ih (fun n hn => hrest n (List.mem_cons_of_mem _ hn)) hnodup
        (hedited.snoc hnew hlife (startTracker_edit hedited.placed hnow) rfl)

/-- A start from a manager whose trackers are in neither place. -/
theorem startEvent_spec (h : Placed w) (hout : AllOut w) (hstart : w.startEvent = some w') :
    Placed w' ∧ (∀ n a, w.life n = some a → ∃ a', w'.life n = some a' ∧ Starts Tracker.start a a') ∧
      (∀ n, w.life n = none → w'.life n = none) ∧
        (∀ c ∈ w'.failedChecks, c ∈ w.failedChecks ∨
          ∃ n a, w.life n = some a ∧ a.tracker.context.hasHttp ∧ AssertionFails a c) ∧
          w'.surroundings = w.surroundings := by
  obtain ⟨w₁, hpopulate, heq⟩ := Option.map_eq_some_iff.mp hstart
  have hadded := @populateManagerSpace_edited w w₁ (fun _ _ _ => False) h hout hpopulate
  have hin : ∀ n ∈ w₁.space, ∃ a, w₁.life n = some a := by
    intro n hn
    obtain ⟨a, ha, -⟩ := hadded.placed.life_of_mem hn
    exact ⟨a, ha⟩
  have hstarted := foldl_startTracker_edited hin hadded.placed.nodup (Edited.nil hadded.placed)
  rw [List.nil_append, heq] at hstarted
  have hnone : ∀ n, w.life n = none → w₁.life n = none := by
    intro n hn
    by_cases hkey : n ∈ w.manager.trackerConnections.map Prod.fst
    · obtain ⟨entry, hentry, rfl⟩ := List.mem_map.mp hkey
      rw [life_eq_none, h.find_of_mem hentry] at hn
      cases hn
    · exact (hadded.others n hkey).trans hn
  refine ⟨hstarted.placed, fun n a hlife => ?_, fun n hn => ?_, fun c hc => ?_,
    hstarted.surroundings.trans hadded.surroundings⟩
  · obtain ⟨a₁, hlife₁, hstarts⟩ := hadded.acted n (mem_keys_of_life hlife) a hlife
    rw [Starts] at hstarts
    by_cases hhttp : a.tracker.context.hasHttp
    · rw [if_pos hhttp] at hstarts
      obtain ⟨idx, rfl⟩ := hstarts
      obtain ⟨a', hlife', rfl⟩ := hstarted.acted n ((mem_space_iff hlife₁).mpr rfl) _ hlife₁
      refine ⟨_, hlife', ?_⟩
      rw [Starts, if_pos hhttp]
      exact ⟨idx, rfl⟩
    · rw [if_neg hhttp] at hstarts
      rw [hstarts] at hlife₁
      have hstays : n ∉ w₁.space := by
        rw [mem_space_iff hlife₁, hout n a hlife]
        exact fun h => Place.noConfusion h
      refine ⟨a, (hstarted.others n hstays).trans hlife₁, ?_⟩
      rw [Starts, if_neg hhttp]
  · have hn₁ := hnone n hn
    exact (hstarted.others n (hadded.placed.not_mem_of_none hn₁)).trans hn₁
  · rcases hstarted.checks c hc with hold | ⟨n, hn, a₁, hlife₁, hfails⟩
    · rcases hadded.checks c hold with hfirst | ⟨_, _, _, _, hfalse⟩
      · exact Or.inl hfirst
      · exact hfalse.elim
    · cases hlife : w.life n with
      | none => cases (hnone n hlife).symm.trans hlife₁
      | some a =>
          obtain ⟨a₂, hlife₂, hstarts⟩ := hadded.acted n (mem_keys_of_life hlife) a hlife
          cases hlife₁.symm.trans hlife₂
          have hin := (mem_space_iff hlife₁).mp hn
          rw [Starts] at hstarts
          split at hstarts
          · rename_i hhttp
            obtain ⟨idx, rfl⟩ := hstarts
            exact Or.inr ⟨n, a, hlife, hhttp, hfails⟩
          · rw [hstarts, hout n a hlife] at hin
            cases hin

end TrackerWorld

end TorrentEngine
