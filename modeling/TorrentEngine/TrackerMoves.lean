import TorrentEngine.TrackerLives

/-! What a step of the manager does to each of its trackers. While the bookkeeping is right every tracker
goes its own way, by moves that depend on the tracker and on the event alone. -/

open Transition SwapRemoval

namespace TorrentEngine

open Bencode Tracker

/-! ### Responses -/

namespace Tracker

variable {env : TrackerEnvironment} {name : ByteString} {manager manager' : TrackerManager}
  {tracker tracker' : Tracker} {parse : Dictionary} {body : Option (List Byte)}

/-- A tracker with a timer armed again, before it is entered or reset. Its minimum timer is armed, and it
is not interruptible, where the response asked for a minimum interval. -/
structure Rearmed (body : Option (List Byte)) (tracker tracker' : Tracker) : Prop where
  proto : tracker.currentProto = .http → tracker'.currentProto = .http
  domain : tracker'.announceUrl.domainName = tracker.announceUrl.domainName
  one : tracker'.timers.type = .one →
    tracker'.timers.minimum = tracker.timers.minimum ∧
      tracker'.context.interruptible = tracker.context.interruptible
  two : tracker'.timers.type = .two →
    tracker'.state = .active ∧ tracker'.context.interruptible = false ∧
      ∃ data duration, body = some data ∧ minInterval data = some duration ∧
        tracker'.timers.minimum = EvTimer.arm duration.toInt ∧
        ∀ interval, durationIn "interval" data = some interval →
          tracker'.timers.maximum = EvTimer.arm interval.toInt

theorem Rearmed.unplaced (h : Rearmed body tracker tracker') :
    Rearmed body tracker.unplaced tracker'.clearData.unplaced :=
  ⟨h.proto, h.domain, h.one, h.two⟩

/-- A tracker whose handler returned early, with its timers as they were. -/
structure Kept (tracker tracker' : Tracker) : Prop where
  domain : tracker'.announceUrl.domainName = tracker.announceUrl.domainName
  timer : tracker'.timer = tracker.timer
  interruptible : tracker'.context.interruptible = tracker.context.interruptible

theorem noteFailedUrl_eq (tracker : Tracker) : ∃ failedIdx justFailed, noteFailedUrl tracker =
    { tracker with announceUrl := { tracker.announceUrl with failedIdx, justFailed } } := by
  rw [noteFailedUrl]
  split
  · exact ⟨_, _, rfl⟩
  · exact ⟨_, _, rfl⟩

/-- A failed announce writes these fields of the tracker, and no others. -/
theorem failAnnounce_eq {exhausted : Bool} (h : failAnnounce env tracker = .ok (exhausted, tracker')) :
    ∃ failures maximumDuration currentIdx failedIdx justFailed, tracker' = { tracker with
      state := .inactive
      currentProto := .http
      context := { tracker.context with failures }
      timers := { tracker.timers with
        type := .one, maximumDuration, maximum := EvTimer.arm maximumDuration.toInt }
      announceUrl := { tracker.announceUrl with currentIdx, failedIdx, justFailed } } := by
  obtain ⟨failedIdx, justFailed, hnoted⟩ := noteFailedUrl_eq
    { tracker with state := .inactive, timers := { tracker.timers with type := .one } }
  rw [failAnnounce, hnoted] at h
  obtain ⟨⟨round, sought⟩, hseek, hlast⟩ := Except.bind_eq_ok.mp h
  obtain ⟨idx, rfl⟩ := seekHttpUrl_atUrl hseek
  cases hlast
  cases exhausted with
  | true => exact ⟨_, _, idx, failedIdx, justFailed, rfl⟩
  | false => exact ⟨_, _, idx, failedIdx, justFailed, rfl⟩

theorem inactiveStateHandler_rearmed
    (h : inactiveStateHandler env name manager tracker = .ok (manager', tracker')) :
    ∃ armed, Rearmed body tracker armed ∧ finish name manager armed = (manager', tracker') := by
  rw [inactiveStateHandler] at h
  obtain ⟨⟨exhausted, failed⟩, hfailed, hrest⟩ := Except.bind_eq_ok.mp h
  obtain ⟨failures, maximumDuration, currentIdx, failedIdx, justFailed, rfl⟩ := failAnnounce_eq hfailed
  refine ⟨_, ?_, Except.ok.inj hrest⟩
  exact ⟨fun _ => rfl, rfl, fun _ => ⟨rfl, rfl⟩, fun htwo => TimerCount.noConfusion htwo⟩

/-- The tracker after the fields of a response, apart from the peers. -/
structure FieldsRead (parse : Dictionary) (tracker tracker' : Tracker) : Prop where
  state : tracker'.state = tracker.state
  proto : tracker'.currentProto = tracker.currentProto
  context : tracker'.context = tracker.context
  announceUrl : tracker'.announceUrl = tracker.announceUrl
  timer : tracker'.timer = tracker.timer
  interval : ∀ duration p, find "interval" parse = some (.integer duration p) → 0 < duration →
    tracker'.timers.maximumDuration = duration
  two : tracker'.timers.type = .two → 0 < tracker'.timers.minimumDuration ∧
    ∃ p, find "min interval" parse = some (.integer tracker'.timers.minimumDuration p)

theorem fieldsRead {tracker₁ tracker₂ : Tracker} (hinterval : readInterval parse tracker = .ok tracker₁)
    (hmin : readMinInterval parse tracker₁ = .ok tracker₂)
    (hid : readTrackerId parse tracker₂ = .ok tracker') : FieldsRead parse tracker tracker' := by
  have h₁ : tracker₁.timers.type = .one ∧ FieldsRead parse tracker tracker₁ := by
    rcases readField_eq_ok hinterval with ⟨hnone, rfl⟩ | ⟨found, value, hfound, hvalue, rfl⟩
    · refine ⟨rfl, rfl, rfl, rfl, rfl, rfl, fun duration p hsome => ?_,
        fun htwo => TimerCount.noConfusion htwo⟩
      cases hnone.symm.trans hsome
    · refine ⟨rfl, rfl, rfl, rfl, rfl, rfl, fun duration p hsome hpositive => ?_,
        fun htwo => TimerCount.noConfusion htwo⟩
      obtain ⟨p', rfl⟩ := Data.getAsInteger_eq_ok.mp hvalue
      cases hfound.symm.trans hsome
      exact if_neg (Int64.not_le.mpr hpositive)
  have h₂ : FieldsRead parse tracker tracker₂ := by
    rcases readField_eq_ok hmin with ⟨-, rfl⟩ | ⟨found, value, hfound, hvalue, rfl⟩
    · exact h₁.2
    · refine ⟨h₁.2.state, h₁.2.proto, h₁.2.context, h₁.2.announceUrl, h₁.2.timer, h₁.2.interval,
        fun htwo => ?_⟩
      rw [setMinimumDuration] at htwo ⊢
      dsimp only at htwo ⊢
      split at htwo
      · rename_i hpositive
        obtain ⟨p, rfl⟩ := Data.getAsInteger_eq_ok.mp hvalue
        exact ⟨hpositive, p, hfound⟩
      · rw [h₁.1] at htwo
        cases htwo
  rcases readField_eq_ok hid with ⟨-, rfl⟩ | ⟨found, value, -, -, rfl⟩
  · exact h₂
  · exact ⟨h₂.state, h₂.proto, h₂.context, h₂.announceUrl, h₂.timer, h₂.interval, h₂.two⟩

/-- A duration that a response gives is the value of the key. -/
theorem durationIn_of_find {key : String} {data : List Byte} {p p' : SourceStats} {duration : Int64}
    (hinput : Decode.input data = some (.dictionary parse p))
    (hfound : find key parse = some (.integer duration p')) (hpositive : 0 < duration) :
    durationIn key data = some duration := by
  rw [durationIn, hinput]
  dsimp only
  rw [hfound]
  exact if_pos hpositive

theorem find_of_durationIn {key : String} {data : List Byte} {p : SourceStats} {duration : Int64}
    (hinput : Decode.input data = some (.dictionary parse p)) (h : durationIn key data = some duration) :
    0 < duration ∧ ∃ p', find key parse = some (.integer duration p') := by
  rw [durationIn, hinput] at h
  dsimp only at h
  split at h
  · rename_i p' hfound
    split at h
    · rename_i hpositive
      cases h
      exact ⟨hpositive, p', hfound⟩
    · cases h
  · cases h

/-- The timers are armed for a tracker whose fields were read. -/
theorem armTimers_rearmed {data : List Byte} {p : SourceStats}
    (hinput : Decode.input data = some (.dictionary parse p))
    (hread : FieldsRead parse { tracker with state := .active }.resetFailureStats tracker') :
    Rearmed (some data) tracker tracker'.armTimers := by
  have hminimum : tracker'.timers.minimum = tracker.timers.minimum := congrFun hread.timer .minimum
  rw [armTimers_eq]
  split
  · rename_i htwo
    obtain ⟨hpositive, p', hfound⟩ := hread.two htwo
    refine ⟨fun hproto => hread.proto.trans hproto, ?_, fun hone => ?_, fun _ => ⟨hread.state, rfl, data,
      tracker'.timers.minimumDuration, rfl, durationIn_of_find hinput hfound hpositive, rfl,
      fun interval hinterval => ?_⟩⟩
    · rw [hread.announceUrl]
      rfl
    · cases htwo.symm.trans hone
    · obtain ⟨hpositive', p'', hfound'⟩ := find_of_durationIn hinput hinterval
      rw [hread.interval interval p'' hfound' hpositive']
  · rename_i htype
    refine ⟨fun hproto => hread.proto.trans hproto, ?_, fun _ => ⟨hminimum, ?_⟩,
      fun htwo => absurd htwo htype⟩
    · rw [hread.announceUrl]
      rfl
    · rw [hread.context]
      rfl

theorem activeStateHandler_rearmed {data : List Byte} {p : SourceStats}
    (hinput : Decode.input data = some (.dictionary parse p))
    (h : activeStateHandler env name manager tracker parse = .ok (manager', tracker')) :
    (¬ UsablePeers parse ∧ manager' = manager ∧ Kept tracker tracker') ∨
      ∃ discoveries signalled armed, Rearmed (some data) tracker armed ∧
        finish name { manager with discoveries, consumerSignalled := signalled } armed =
          (manager', tracker') := by
  obtain ⟨tracker₁, tracker₂, tracker₃, queued, hinterval, hmin, hid, hpush, hresult⟩ :=
    activeStateHandler_reads h
  have hread := fieldsRead hinterval hmin hid
  rcases hresult with ⟨hnone, heq⟩ | ⟨discoveries, signalled, -, heq⟩
  · cases heq
    refine Or.inl ⟨(pushPeers_none_iff hpush).mp hnone, rfl, ?_, hread.timer, ?_⟩
    · rw [hread.announceUrl]
      rfl
    · rw [hread.context]
      rfl
  · exact Or.inr ⟨discoveries, signalled, tracker₃.armTimers, armTimers_rearmed hinput hread, heq.symm⟩

end Tracker

/-- What a callback of the HTTP handler does to the manager. -/
inductive Response (manager : TrackerManager) (name : ByteString) (body : Option (List Byte))
    (tracker : Tracker) : TrackerManager → Prop
  | erased : Response manager name body tracker (manager.erase tracker.announceUrl.domainName)
  | withoutPeers {data : List Byte} {tracker' : Tracker} : body = some data → WithoutPeers data →
      Kept tracker tracker' → Response manager name body tracker (manager.store name tracker')
  | rearmed {discoveries : List PeerContact} {signalled : Bool} {armed tracker' : Tracker}
      {manager' : TrackerManager} : Rearmed body tracker armed →
      finish name { manager with discoveries, consumerSignalled := signalled } armed =
        (manager', tracker') →
      Response manager name body tracker (manager'.store name tracker')

namespace TrackerWorld

variable {env : TrackerEnvironment} {w w' w₁ : TrackerWorld} {e : TrackerEvent} {name n : ByteString}
  {a a' : Life} {tracker tracker' : Tracker} {body : Option (List Byte)} {manager' : TrackerManager}

/-- The handler is called for the tracker with its response, and with whether it is online. -/
theorem inactive_response {before : Tracker} {manager : TrackerManager}
    (hbefore : ∃ data online, before =
      { tracker with data, context := { tracker.context with online } })
    (h : inactiveStateHandler env name w.manager before = .ok (manager, tracker')) :
    Response w.manager name body tracker (manager.store name tracker') := by
  obtain ⟨data, online, rfl⟩ := hbefore
  obtain ⟨armed, harmed, hfinish⟩ := @inactiveStateHandler_rearmed _ _ _ _ _ _ body h
  exact .rearmed ⟨harmed.proto, harmed.domain, harmed.one, harmed.two⟩ hfinish

theorem doOnSuccess_response {data : List Byte}
    (h : w.manager.doOnSuccess env name { tracker with data } = .ok manager') :
    Response w.manager name (some data) tracker manager' := by
  rw [TrackerManager.doOnSuccess] at h
  dsimp only at h
  split at h
  · obtain ⟨⟨_, _⟩, hhandler, hrest⟩ := Except.bind_eq_ok.mp h
    cases hrest
    exact inactive_response ⟨data, true, rfl⟩ hhandler
  · split at h
    · cases h
      exact .erased
    · rename_i parse hinput
      obtain ⟨parsedDict, hdict, hrest⟩ := Except.bind_eq_ok.mp h
      obtain ⟨p, rfl⟩ := Data.getAsDictionary_eq_ok.mp hdict
      split at hrest
      · obtain ⟨⟨_, _⟩, hhandler, hdone⟩ := Except.bind_eq_ok.mp hrest
        cases hdone
        exact inactive_response ⟨data, true, rfl⟩ hhandler
      · rename_i hsuccess
        rw [Bool.not_eq_true] at hsuccess
        obtain ⟨⟨_, _⟩, hhandler, hdone⟩ := Except.bind_eq_ok.mp hrest
        cases hdone
        rcases activeStateHandler_rearmed hinput hhandler with
          ⟨husable, rfl, hkept⟩ | ⟨discoveries, signalled, armed, harmed, hfinish⟩
        · exact .withoutPeers rfl ⟨parsedDict, p, hinput, hsuccess, husable⟩
            ⟨hkept.domain, hkept.timer, hkept.interruptible⟩
        · exact .rearmed ⟨harmed.proto, harmed.domain, harmed.one, harmed.two⟩ hfinish

theorem respond_response (h : w.respond env name tracker body = .ok manager') :
    Response w.manager name body tracker manager' := by
  cases body with
  | some data => exact doOnSuccess_response h
  | none =>
      rw [respond, TrackerManager.doOnFailure] at h
      obtain ⟨⟨_, _⟩, hhandler, hrest⟩ := Except.bind_eq_ok.mp h
      cases hrest
      exact inactive_response ⟨tracker.data, false, rfl⟩ hhandler

/-! ### A request that is done -/

/-- What becomes of a tracker whose request is done. -/
inductive Answered (active : Bool) (body : Option (List Byte)) (tracker : Tracker) : Option Life → Prop
  | erased : Answered active body tracker none
  | withoutPeers {data : List Byte} {tracker' : Tracker} : body = some data → WithoutPeers data →
      Kept tracker tracker' → Answered active body tracker (some ⟨tracker', .neither⟩)
  | returned {tracker' : Tracker} : active = true → Rearmed body tracker tracker' →
      Answered active body tracker (some ⟨tracker', .space⟩)
  | reset {tracker' : Tracker} : active = false → tracker'.state = .null →
      tracker'.timers.type = .one → (∀ which, (tracker'.timer which).active = false) →
      Answered active body tracker (some ⟨tracker', .neither⟩)

/-- The tracker's request leaves the multi handle. -/
def withdraw (w : TrackerWorld) (name : ByteString) (discoveries : List PeerContact)
    (consumerSignalled : Bool) : TrackerWorld :=
  { w with
    manager := { w.manager with discoveries, consumerSignalled }
    requests := w.requests.filter (· ≠ name) }

variable {Blame : TrackerCheck → Prop} {discoveries : List PeerContact} {signalled : Bool}

theorem withdraw_edit (h : Placed w) (hlife : w.life name = some a) (hprotocol : a.place = .protocol) :
    Edit Blame w (w.withdraw name discoveries signalled) name ⟨a.tracker, .neither⟩ := by
  obtain ⟨tracker, hfind, htracker, hat⟩ := life_eq_some.mp hlife
  obtain ⟨hspace, -⟩ := place_eq_protocol.mp (hat.trans hprotocol)
  have hrequests : ∀ n, n ∈ (w.withdraw name discoveries signalled).requests ↔
      n ∈ w.requests ∧ n ≠ name := by
    intro n
    rw [withdraw, List.mem_filter, decide_eq_true_iff]
  refine ⟨⟨h.keys, h.domains, h.nodup, h.indexed, fun n hn hmem => ?_⟩, ?_, fun n hn => ?_,
    fun _ hc => Or.inl hc, rfl⟩
  · exact h.disjoint n hn ((hrequests n).mp hmem).1
  · exact life_eq_some.mpr ⟨tracker, hfind, htracker,
      place_eq_neither.mpr ⟨hspace, fun hmem => ((hrequests name).mp hmem).2 rfl⟩⟩
  · exact life_congr rfl (place_congr Iff.rfl ((hrequests n).trans (and_iff_left hn)))

/-- A tracker outside the manager space is written back. -/
theorem store_edit (h : Placed w) (hlife : w.life name = some a) (hout : a.place = .neither)
    (hdomain : tracker.announceUrl.domainName = name) :
    Edit Blame w { w with manager := w.manager.store name tracker } name ⟨tracker.unplaced, .neither⟩ := by
  obtain ⟨before, hfind, -, hat⟩ := life_eq_some.mp hlife
  have hspace := (place_eq_neither.mp (hat.trans hout)).1
  have hstored : Stored w { w with manager := w.manager.store name tracker } name tracker :=
    ⟨TrackerManager.keys_store name tracker, TrackerManager.find_store hfind tracker,
      fun n hn => TrackerManager.find_store_of_ne hn tracker, rfl, rfl, rfl⟩
  have hplace : place { w with manager := w.manager.store name tracker } name = .neither := hat.trans hout
  have hedit := @Stored.edit w _ name tracker Blame hstored h hdomain h.nodup (fun _ _ _ => Iff.rfl)
    (fun i hi => absurd (List.mem_of_getElem? hi) hspace) (fun hmem => absurd hmem hspace)
  rwa [hplace] at hedit

theorem find_erase_of_ne {manager : TrackerManager} (h : n ≠ name) :
    (manager.erase name).find n = manager.find n := by
  rw [TrackerManager.find, TrackerManager.find, TrackerManager.erase]
  dsimp only
  induction manager.trackerConnections with
  | nil => rfl
  | cons entry entries ih =>
      obtain ⟨key, value⟩ := entry
      rw [List.filter_cons, List.lookup_cons]
      split
      · rw [List.lookup_cons, ih]
      · rename_i hkey
        have heq : key = name := by
          by_contra hne
          exact hkey (decide_eq_true hne)
        have hne : (n == key) = false := beq_eq_false_iff_ne.mpr (heq ▸ h)
        rw [hne]
        exact ih

/-- A tracker in neither place is erased from the map. -/
theorem erase_spec (h : Placed w) (hlife : w.life name = some a) (hout : a.place = .neither) :
    Placed { w with manager := w.manager.erase name } ∧
      TrackerWorld.life { w with manager := w.manager.erase name } name = none ∧
        ∀ n, n ≠ name → TrackerWorld.life { w with manager := w.manager.erase name } n = w.life n := by
  obtain ⟨before, hfind, -, hat⟩ := life_eq_some.mp hlife
  have hspace := (place_eq_neither.mp (hat.trans hout)).1
  have hothers : ∀ n, n ≠ name → (w.manager.erase name).find n = w.find n :=
    fun n hn => find_erase_of_ne hn
  have hself : (w.manager.erase name).find name = none := TrackerManager.find_erase w.manager name
  refine ⟨⟨?_, fun n found hn => ?_, h.nodup, fun i n hi => ?_, h.disjoint⟩, ?_, fun n hn => ?_⟩
  · exact h.keys.sublist (List.filter_sublist.map _)
  · have hne : n ≠ name := by
      rintro rfl
      cases hself.symm.trans hn
    exact h.domains n found ((hothers n hne).symm.trans hn)
  · have hne : n ≠ name := by
      rintro rfl
      exact hspace (List.mem_of_getElem? hi)
    obtain ⟨found, hfound, hidx⟩ := h.indexed i n hi
    exact ⟨found, (hothers n hne).trans hfound, hidx⟩
  · exact life_eq_none.mpr hself
  · exact life_congr (congrArg _ (hothers n hn)) rfl

/-- What a callback of the HTTP handler does to the world. -/
theorem finished_spec (h : Placed w) (hfind : w.find name = some tracker) (hmem : name ∈ w.requests)
    (hrespond : w.respond env name tracker body = .ok manager')
    (hw' : w' = { w with
      manager := manager'.change name clearData, requests := w.requests.filter (· ≠ name)
      askedUntil := w.askedAfter (.finished name body) }) :
    Placed w' ∧ (∀ n, n ≠ name → w'.life n = w.life n) ∧
      Answered w.manager.active body tracker.unplaced (w'.life name) ∧ w'.loop = w.loop := by
  have hdomain := h.domains name tracker hfind
  have hlife := life_of_find hfind
  have hprotocol := h.place_of_request hmem
  have hedit : ∀ {w₁ : TrackerWorld} {a' : Life},
      w₁ = { w with manager := manager', requests := w.requests.filter (· ≠ name) } →
      Edit (fun _ => False) w w₁ name a' →
        Placed w' ∧ (∀ n, n ≠ name → w'.life n = w.life n) ∧
          w'.life name = some ⟨clearData a'.tracker, a'.place⟩ ∧ w'.loop = w.loop := by
    intro w₁ a' hw₁ hedit
    have hclear := (@change_edit w₁ name a' (fun _ => False) hedit.placed hedit.acted _
      placeless_clearData).1
    have hall := hedit.trans hclear
    rw [hw₁] at hall
    rw [hw']
    exact ⟨hall.placed.congr rfl rfl rfl, hall.others, hall.acted, congrArg Prod.fst hall.surroundings⟩
  have hwithdraw : ∀ discoveries signalled, Edit (fun _ => False) w
      (w.withdraw name discoveries signalled) name ⟨tracker.unplaced, .neither⟩ :=
    fun discoveries signalled => withdraw_edit h hlife hprotocol
  cases respond_response hrespond with
  | erased =>
      rw [hdomain] at hw'
      have hgone := hwithdraw w.manager.discoveries w.manager.consumerSignalled
      obtain ⟨hplaced, hnone, hothers⟩ := erase_spec hgone.placed hgone.acted rfl
      have hchange : (w.manager.erase name).change name clearData = w.manager.erase name := by
        rw [TrackerManager.change, TrackerManager.find_erase]
      rw [hchange] at hw'
      rw [hw']
      refine ⟨hplaced.congr rfl rfl rfl, fun n hn => (hothers n hn).trans (hgone.others n hn), ?_, rfl⟩
      exact hnone ▸ .erased
  | withoutPeers hbody hpeers hkept =>
      have hgone := hwithdraw w.manager.discoveries w.manager.consumerSignalled
      obtain ⟨hplaced, hothers, hacted, hloop⟩ :=
        hedit rfl (hgone.trans (store_edit hgone.placed hgone.acted rfl (hkept.domain.trans hdomain)))
      refine ⟨hplaced, hothers, ?_, hloop⟩
      rw [hacted]
      exact .withoutPeers hbody hpeers ⟨hkept.domain, hkept.timer, hkept.interruptible⟩
  | @rearmed discoveries signalled armed tracker' _ harmed hfinish =>
      have hgone := hwithdraw discoveries signalled
      rw [finish] at hfinish
      split at hfinish
      · rename_i hactive
        cases hfinish
        obtain ⟨hplaced, hothers, hacted, hloop⟩ := hedit rfl (hgone.trans
          (enter_edit hgone.placed hgone.acted rfl (harmed.domain.trans hdomain) rfl))
        refine ⟨hplaced, hothers, ?_, hloop⟩
        rw [hacted]
        exact .returned hactive harmed.unplaced
      · rename_i hinactive
        rw [Bool.not_eq_true] at hinactive
        cases hfinish
        obtain ⟨hplaced, hothers, hacted, hloop⟩ := hedit rfl (hgone.trans
          (@store_edit _ name _ armed.shutdownReset (fun _ => False) hgone.placed hgone.acted rfl
            (harmed.domain.trans hdomain)))
        refine ⟨hplaced, hothers, ?_, hloop⟩
        rw [hacted]
        exact .reset hinactive rfl rfl fun which => by cases which <;> rfl

/-! ### The event system within -/

theorem loop_change (w : TrackerWorld) (name : ByteString) (f : Tracker → Tracker) :
    (w.change name f).loop = w.loop := by
  obtain ⟨trackerConnections, heq⟩ := change_eq w name f
  rw [heq]
  rfl

theorem loop_sendToProtocolSpace (w : TrackerWorld) (name : ByteString) :
    (w.sendToProtocolSpace name).loop = w.loop := by
  rw [sendToProtocolSpace]
  dsimp only
  have hcheck : (w.check .handOver (name ∈ w.space ∧ name ∉ w.requests)).loop = w.loop := by
    unfold check
    split
    · rfl
    · rfl
  generalize w.check .handOver (name ∈ w.space ∧ name ∉ w.requests) = w₁ at hcheck
  split
  · rename_i last tracker _ _
    exact (loop_change w₁ last (setManagerSpaceIdx tracker.context.managerSpaceIdx)).trans hcheck
  · exact hcheck

theorem loop_addRequest (w : TrackerWorld) (name : ByteString) : (w.addRequest name).loop = w.loop := by
  rw [addRequest]
  split
  · split
    · rfl
    · rfl
  · rfl

theorem loop_trackerTimeoutHandler (w : TrackerWorld) (name : ByteString) (which : TimerName) :
    (w.trackerTimeoutHandler name which).loop = w.loop := by
  have hdisarm := loop_change w name (disarm which)
  rw [trackerTimeoutHandler]
  split
  · exact hdisarm
  · split
    · exact (loop_change _ _ _).trans hdisarm
    · generalize w.change name (disarm which) = w₁ at hdisarm
      calc ((w₁.sendToProtocolSpace name).addRequest name).loop
          = (w₁.sendToProtocolSpace name).loop := loop_addRequest _ _
        _ = w₁.loop := loop_sendToProtocolSpace _ _
        _ = w.loop := hdisarm

theorem response_active {manager : TrackerManager} (h : Response manager name body tracker manager') :
    manager'.active = manager.active := by
  cases h with
  | erased => rfl
  | withoutPeers => rfl
  | rearmed _ hfinish =>
      rw [finish] at hfinish
      split at hfinish
      · cases hfinish
        rfl
      · cases hfinish
        rfl

/-- The event system of the manager steps as the event system on its own, and nothing else changes it. -/
theorem loop_step (hstep : w.step env e = some w') :
    w'.loop = w.loop ∨ ∃ signal, e = .signal signal ∧ w.loop.step signal = some w'.loop := by
  cases e with
  | signal signal =>
      obtain ⟨loop, hloop, hrest⟩ := Option.bind_eq_some_iff.mp hstep
      obtain ⟨w₁, -, hinstall⟩ := Option.bind_eq_some_iff.mp hrest
      cases hinstall
      exact Or.inr ⟨signal, rfl, hloop⟩
  | timerExpires name which =>
      obtain ⟨tracker, -, hrest⟩ := Option.bind_eq_some_iff.mp hstep
      split at hrest
      · cases hrest
        exact Or.inl (loop_trackerTimeoutHandler w name which)
      · cases hrest
  | finished name body =>
      obtain ⟨tracker, -, hrest⟩ := Option.bind_eq_some_iff.mp hstep
      split at hrest
      · obtain ⟨manager', hrespond, hw'⟩ := Option.bind_eq_some_iff.mp hrest
        cases hok : w.respond env name tracker body with
        | error fault =>
            rw [hok] at hrespond
            cases hrespond
        | ok manager₁ =>
            rw [hok] at hrespond
            cases hrespond
            have hactive : manager'.active = w.manager.active := response_active (respond_response hok)
            obtain ⟨trackerConnections, heq⟩ := @TrackerManager.change_eq manager' name clearData
            rw [← Option.some.inj hw', loop, heq]
            exact Or.inl (congrArg (fun active => ({ w.events with active } : EventLoop)) hactive)
      · cases hrest
  | elapse time =>
      rw [step] at hstep
      split at hstep
      · cases hstep
        exact Or.inl rfl
      · cases hstep
  | consume count =>
      cases hstep
      exact Or.inl rfl

/-! ### Moves -/

/-- What an event makes of one tracker. -/
inductive Moves (w : TrackerWorld) (e : TrackerEvent) (name : ByteString) (a : Life) : Option Life → Prop
  | stays : (∀ time, e ≠ .elapse time) → (∀ body, e ≠ .finished name body) → Moves w e name a (some a)
  | elapses {time : Rat} : e = .elapse time → 0 ≤ time →
      Moves w e name a (some ⟨a.tracker.elapse time, a.place⟩)
  | starts {a' : Life} : w.running e = some .start → a.place = .neither → Starts Tracker.start a a' →
      Moves w e name a (some a')
  | reannounces : w.running e = some .reannounce → a.place = .space → Moves w e name a (some a.reannounced)
  | forces : w.running e = some .forceReannounce → a.place = .space → Moves w e name a (some a.forced)
  | shutsDown : w.running e = some .shutdown → a.place = .space → Moves w e name a (some a.shutDown)
  | interrupts {which : TimerName} : e = .timerExpires name which → a.place = .space →
      Expires a.tracker which → a.tracker.Waiting →
      Moves w e name a (some ⟨setInterruptible (disarm which a.tracker), .space⟩)
  | announces {which : TimerName} : e = .timerExpires name which → a.place = .space →
      Expires a.tracker which → ¬ a.tracker.Waiting →
      Moves w e name a (some ⟨disarm which a.tracker, .protocol⟩)
  | answers {body : Option (List Byte)} {answer : Option Life} : e = .finished name body →
      a.place = .protocol → Answered w.manager.active body a.tracker answer → Moves w e name a answer

/-- What holds of every tracker: timers run for it in the manager space only, a minimum timer only after a
response that asked for one, and with both of them armed it is not interruptible. -/
structure Sound (a : Life) : Prop where
  http : a.place ≠ .neither → a.tracker.currentProto = .http
  unarmed : a.place ≠ .space → ∀ which, (a.tracker.timer which).active = false
  minimum : (a.tracker.timer .minimum).active = true →
    a.tracker.timers.type = .two ∧ a.tracker.state = .active
  both : (∀ which, (a.tracker.timer which).active = true) → a.tracker.context.interruptible = false

structure Consistent (w : TrackerWorld) : Prop where
  placed : Placed w
  sound : ∀ n a, w.life n = some a → Sound a
  rests : w.manager.active = false → w.space = []

/-- Which checks an event makes fail, and why. -/
def Blames (w : TrackerWorld) (e : TrackerEvent) (c : TrackerCheck) : Prop :=
  (w.running e = some .start ∧
    ∃ n a, w.life n = some a ∧ a.tracker.context.hasHttp ∧ AssertionFails a c) ∨
  (w.running e = some .reannounce ∧ c = .minimumElapsed ∧
    ∃ n a, w.life n = some a ∧ a.place = .space ∧ a.tracker.Reannounced ∧
      ¬ w.askedUntil n ≤ w.clock)

/-- What a step does to the trackers, one by one. -/
structure Stepped (w : TrackerWorld) (e : TrackerEvent) (w' : TrackerWorld) : Prop where
  placed : Placed w'
  moves : ∀ n a, w.life n = some a → Moves w e n a (w'.life n)
  absent : ∀ n, w.life n = none → w'.life n = none
  rests : w'.manager.active = false → w'.space = []
  checks : ∀ c ∈ w'.failedChecks, c ∈ w.failedChecks ∨ Blames w e c
  clock : w'.clock = w.clock + e.time
  asked : w'.askedUntil = w.askedAfter e

theorem Stepped.came (h : Stepped w e w') (hlife' : w'.life n = some a') :
    ∃ a, w.life n = some a ∧ Moves w e n a (some a') := by
  cases hlife : w.life n with
  | none => cases (h.absent n hlife).symm.trans hlife'
  | some a => exact ⟨a, rfl, hlife' ▸ h.moves n a hlife⟩

/-! ### The steps of the event system -/

theorem running_runs {call : Call} (h : w.running e = some call) :
    ∃ event, call.runs event w.manager.active = true := by
  unfold running at h
  split at h
  · split at h
    · split at h
      · rename_i hruns
        cases h
        exact ⟨_, hruns⟩
      · cases h
    · cases h
  · cases h

theorem running_start (h : w.running e = some .start) : w.manager.active = false := by
  obtain ⟨event, hruns⟩ := running_runs h
  rw [Call.runs, Bool.and_eq_true, Bool.not_eq_true'] at hruns
  exact hruns.2

theorem running_reannounce (h : w.running e = some .reannounce) : w.manager.active = true := by
  obtain ⟨event, hruns⟩ := running_runs h
  rw [Call.runs, Bool.and_eq_true] at hruns
  exact hruns.1

theorem running_forceReannounce (h : w.running e = some .forceReannounce) : w.manager.active = true := by
  obtain ⟨event, hruns⟩ := running_runs h
  rw [Call.runs, Bool.and_eq_true] at hruns
  exact hruns.1

/-- The flag after a step of the event system. -/
theorem active_signal {e : SignalEvent} {loop : EventLoop} (h : w.loop.step e = some loop) :
    loop.active = match w.running (.signal e) with
      | none => w.manager.active
      | some call => call.activeAfter w.manager.active := by
  by_cases htest : e = .test
  · rw [htest] at h ⊢
    rw [EventLoop.step] at h
    unfold running
    split at h
    · rename_i call calls event handled hinvocation
      dsimp only
      rw [show w.events.invocation = .handling (call :: calls) event handled from hinvocation]
      dsimp only
      split at h
      · rename_i hruns
        have hcall : (if call.runs event w.manager.active then some call else none) = some call :=
          if_pos hruns
        rw [hcall]
        cases h
        rfl
      · rename_i hruns
        have hcall : (if call.runs event w.manager.active then some call else none) = none :=
          if_neg hruns
        rw [hcall]
        cases h
        rfl
    · cases h
  · have hnone : w.running (.signal e) = none := by
      cases e <;> first | rfl | exact absurd rfl htest
    rw [hnone]
    exact EventLoop.active_step htest h

/-- A handler is run by a step of the event system, so that no time passes. -/
theorem running_signal {call : Call} (h : w.running e = some call) :
    (∀ time, e ≠ .elapse time) ∧ (∀ n body, e ≠ .finished n body) ∧ e.time = 0 ∧
      w.askedAfter e = w.askedUntil := by
  unfold running at h
  split at h
  · exact ⟨(fun _ h => by cases h), (fun _ _ h => by cases h), rfl, rfl⟩
  · cases h

variable {f : Life → Life} {Faults : ByteString → Life → TrackerCheck → Prop}

/-- A range loop moves the trackers in the manager space, and only those. -/
theorem Edited.moves {call : Call} (h : Placed w) (hrunning : w.running e = some call)
    (hedited : Edited (fun a a' => a' = f a) Faults w.space w w₁)
    (hmove : ∀ n a, a.place = .space → Moves w e n a (some (f a))) :
    (∀ n a, w.life n = some a → Moves w e n a (w₁.life n)) ∧ ∀ n, w.life n = none → w₁.life n = none := by
  obtain ⟨htime, hbody, -⟩ := running_signal hrunning
  refine ⟨fun n a hlife => ?_, fun n hn => (hedited.others n (h.not_mem_of_none hn)).trans hn⟩
  by_cases hmem : n ∈ w.space
  · obtain ⟨a', hlife', rfl⟩ := hedited.acted n hmem a hlife
    rw [hlife']
    exact hmove n a ((mem_space_iff hlife).mp hmem)
  · rw [hedited.others n hmem, hlife]
    exact .stays htime (hbody n)

/-- What a handler does, before the active flag is set and the bits are marked. -/
structure HandledBy (call : Call) (w : TrackerWorld) (e : TrackerEvent) (w' : TrackerWorld) : Prop where
  placed : Placed w'
  moves : ∀ n a, w.life n = some a → Moves w e n a (w'.life n)
  absent : ∀ n, w.life n = none → w'.life n = none
  rests : call = .shutdown → w'.space = []
  checks : ∀ c ∈ w'.failedChecks, c ∈ w.failedChecks ∨ Blames w e c
  surroundings : w'.surroundings = w.surroundings

theorem Sound.http_of_space (hs : Sound a) (hin : a.place = .space) : a.tracker.currentProto = .http :=
  hs.http (ne_of_eq_of_ne hin (by decide))

theorem Consistent.http (h : Consistent w) (hlife : w.life name = some a) (hin : a.place = .space) :
    a.tracker.currentProto = .http :=
  (h.sound name a hlife).http_of_space hin

theorem startEvent_handled (h : Consistent w) (hrunning : w.running e = some .start)
    (hrequests : w.requests = []) (hstart : w.startEvent = some w') : HandledBy .start w e w' := by
  have hout : AllOut w := by
    intro n a hlife
    obtain ⟨tracker, -, -, hplace⟩ := life_eq_some.mp hlife
    rw [← hplace, place_eq_neither, h.rests (running_start hrunning), hrequests]
    exact ⟨List.not_mem_nil, List.not_mem_nil⟩
  obtain ⟨hplaced, hstarts, habsent, hchecks, hsurroundings⟩ := startEvent_spec h.placed hout hstart
  refine ⟨hplaced, fun n a hlife => ?_, habsent, fun h => Call.noConfusion h, fun c hc => ?_, hsurroundings⟩
  · obtain ⟨a', hlife', hacts⟩ := hstarts n a hlife
    rw [hlife']
    exact .starts hrunning (hout n a hlife) hacts
  · exact (hchecks c hc).imp_right fun hfails => Or.inl ⟨hrunning, hfails⟩

theorem reannounceEvent_handled (h : Consistent w) (hrunning : w.running e = some .reannounce) :
    HandledBy .reannounce w e (w.overManagerSpace reannounceTracker) := by
  have hturns : Turns reannounceTracker Life.reannounced (fun n a c => c = .minimumElapsed ∧
      a.tracker.Reannounced ∧ ¬ w.askedUntil n ≤ w.clock) w := by
    intro w₁ n a hplaced hsurroundings hlife hnow hin
    have hclock : w₁.clock = w.clock := congrArg (fun s => s.2.1) hsurroundings
    have hasked : w₁.askedUntil = w.askedUntil := congrArg (fun s => s.2.2) hsurroundings
    refine reannounceTracker_turn hplaced hnow hin (h.http hlife hin) fun heligible hearly => ?_
    rw [hasked, hclock] at hearly
    exact ⟨rfl, heligible, hearly⟩
  have hedited := overManagerSpace_edited h.placed hturns
  obtain ⟨hmoves, habsent⟩ := Edited.moves h.placed hrunning hedited
    fun n a hin => .reannounces hrunning hin
  refine ⟨hedited.placed, hmoves, habsent, fun h => Call.noConfusion h, fun c hc => ?_, hedited.surroundings⟩
  refine (hedited.checks c hc).imp_right ?_
  rintro ⟨n, hn, a, hlife, hcheck, heligible, hearly⟩
  exact Or.inr ⟨hrunning, hcheck, n, a, hlife, (mem_space_iff hlife).mp hn, heligible, hearly⟩

theorem forceReannounceEvent_handled (h : Consistent w) (hrunning : w.running e = some .forceReannounce) :
    HandledBy .forceReannounce w e (w.overManagerSpace forceReannounceTracker) := by
  have hturns : Turns forceReannounceTracker Life.forced (fun _ _ _ => False) w :=
    fun w₁ n a hplaced _ hlife hnow hin =>
      forceReannounceTracker_turn hplaced hnow hin (h.http hlife hin)
  have hedited := overManagerSpace_edited h.placed hturns
  obtain ⟨hmoves, habsent⟩ := Edited.moves h.placed hrunning hedited
    fun n a hin => .forces hrunning hin
  refine ⟨hedited.placed, hmoves, habsent, fun h => Call.noConfusion h, fun c hc => ?_, hedited.surroundings⟩
  exact (hedited.checks c hc).imp_right fun ⟨_, _, _, _, hfalse⟩ => hfalse.elim

theorem shutDown_place (a : Life) : a.shutDown.place ≠ .space := by
  rw [Life.shutDown]
  split
  · exact fun h => Place.noConfusion h
  · split
    · exact fun h => Place.noConfusion h
    · exact fun h => Place.noConfusion h

theorem shutdownEvent_handled (h : Consistent w) (hrunning : w.running e = some .shutdown) :
    HandledBy .shutdown w e (w.overManagerSpace shutdownTracker) := by
  have hturns : Turns shutdownTracker Life.shutDown (fun _ _ _ => False) w :=
    fun w₁ n a hplaced _ hlife hnow hin =>
      shutdownTracker_turn hplaced hnow hin (h.http hlife hin)
  have hedited := overManagerSpace_edited h.placed hturns
  obtain ⟨hmoves, habsent⟩ := Edited.moves h.placed hrunning hedited
    fun n a hin => .shutsDown hrunning hin
  refine ⟨hedited.placed, hmoves, habsent, fun _ => ?_, fun c hc => ?_, hedited.surroundings⟩
  · rw [List.eq_nil_iff_forall_not_mem]
    intro n hn
    obtain ⟨a', hlife', hin⟩ := hedited.placed.life_of_mem hn
    by_cases hmem : n ∈ w.space
    · obtain ⟨a, hlife, -⟩ := h.placed.life_of_mem hmem
      obtain ⟨a₁, hlife₁, rfl⟩ := hedited.acted n hmem a hlife
      cases hlife'.symm.trans hlife₁
      exact shutDown_place a hin
    · rw [hedited.others n hmem] at hlife'
      exact hmem ((mem_space_iff hlife').mpr hin)
  · exact (hedited.checks c hc).imp_right fun ⟨_, _, _, _, hfalse⟩ => hfalse.elim

theorem handle_handled {call : Call} (h : Consistent w) (hrunning : w.running e = some call)
    (hrequests : call = .start → w.requests = []) (hhandle : w.handle call = some w') :
    HandledBy call w e w' := by
  cases call with
  | start => exact startEvent_handled h hrunning (hrequests rfl) hhandle
  | reannounce => exact Option.some.inj hhandle ▸ reannounceEvent_handled h hrunning
  | forceReannounce => exact Option.some.inj hhandle ▸ forceReannounceEvent_handled h hrunning
  | shutdown => exact Option.some.inj hhandle ▸ shutdownEvent_handled h hrunning

/-! ### One step -/

/-- No tracker comes up when one that was there is the only one to change. -/
theorem absent_of_others (hlife : w.life name = some a)
    (hothers : ∀ n, n ≠ name → w'.life n = w.life n) (hn : w.life n = none) : w'.life n = none := by
  have hne : n ≠ name := by
    rintro rfl
    cases hlife.symm.trans hn
  exact (hothers n hne).trans hn

theorem signal_stepped {e : SignalEvent} (h : Consistent w)
    (hrequests : w.running (.signal e) = some .start → w.requests = [])
    (hstep : w.step env (.signal e) = some w') : Stepped w (.signal e) w' := by
  obtain ⟨loop, hloop, hrest⟩ := Option.bind_eq_some_iff.mp hstep
  obtain ⟨w₁, hhandle, hinstall⟩ := Option.bind_eq_some_iff.mp hrest
  have hactive := active_signal hloop
  cases hinstall
  rw [runHandler] at hhandle
  cases hrunning : w.running (.signal e) with
  | none =>
      rw [hrunning] at hhandle hactive
      cases hhandle
      refine ⟨h.placed.congr rfl rfl rfl, fun n a hlife => ?_, fun n hn => hn, fun hinactive => ?_, fun c hc => Or.inl hc,
        (Rat.add_zero _).symm, rfl⟩
      · show Moves w _ n a (w.life n)
        rw [hlife]
        exact .stays (fun _ h => by cases h) (fun _ h => by cases h)
      · exact h.rests (hactive.symm.trans hinactive)
  | some call =>
      rw [hrunning] at hhandle hactive
      obtain ⟨-, -, htime, hasked⟩ := running_signal hrunning
      have hdone := handle_handled h hrunning (fun heq => hrequests (heq ▸ hrunning)) hhandle
      refine ⟨hdone.placed.congr rfl rfl rfl, hdone.moves, hdone.absent, fun hinactive => ?_, hdone.checks,
        ?_, ?_⟩
      · have hafter : call.activeAfter w.manager.active = false := hactive.symm.trans hinactive
        cases call with
        | start => cases hafter
        | reannounce => cases (running_reannounce hrunning).symm.trans hafter
        | forceReannounce => cases (running_forceReannounce hrunning).symm.trans hafter
        | shutdown => exact hdone.rests rfl
      · rw [htime, Rat.add_zero]
        exact congrArg (fun s => s.2.1) hdone.surroundings
      · rw [hasked]
        exact congrArg (fun s => s.2.2) hdone.surroundings

theorem timerExpires_stepped {which : TimerName} (h : Consistent w)
    (hstep : w.step env (.timerExpires name which) = some w') :
    Stepped w (.timerExpires name which) w' := by
  obtain ⟨tracker, hfind, hrest⟩ := Option.bind_eq_some_iff.mp hstep
  split at hrest
  · rename_i hexpires
    cases hrest
    have hlife := life_of_find hfind
    have hexpires' : Expires tracker.unplaced which := by
      cases which
      · exact hexpires.2
      · exact hexpires.2
    have hin : w.place name = .space := by
      by_contra hout
      exact Bool.noConfusion
        (((h.sound name _ hlife).unarmed hout which).symm.trans hexpires'.1)
    have hedit := @timeout_edit w name _ (fun _ => False) h.placed hlife hin (h.http hlife hin) which
    have hloop : (w.trackerTimeoutHandler name which).manager.active = w.manager.active :=
      congrArg (fun s => s.1.active) hedit.surroundings
    refine ⟨hedit.placed, fun n a hn => ?_, fun n hn => ?_, fun hinactive => ?_,
      fun c hc => (hedit.checks c hc).imp_right False.elim, ?_, congrArg (fun s => s.2.2) hedit.surroundings⟩
    · by_cases heq : n = name
      · rw [heq] at hn ⊢
        cases hlife.symm.trans hn
        rw [hedit.acted]
        split
        · rename_i hwaiting
          exact .interrupts rfl hin hexpires' hwaiting
        · rename_i hwaiting
          exact .announces rfl hin hexpires' hwaiting
      · rw [hedit.others n heq, hn]
        exact .stays (fun _ h => by cases h) (fun _ h => by cases h)
    · exact absent_of_others hlife hedit.others hn
    · have hempty := h.rests (hloop.symm.trans hinactive)
      rw [place_eq_space, hempty] at hin
      cases hin
    · exact (congrArg (fun s => s.2.1) hedit.surroundings).trans (Rat.add_zero _).symm
  · cases hrest

theorem finished_stepped (h : Consistent w) (hstep : w.step env (.finished name body) = some w') :
    Stepped w (.finished name body) w' := by
  obtain ⟨tracker, hfind, hrest⟩ := Option.bind_eq_some_iff.mp hstep
  split at hrest
  · rename_i hidle
    obtain ⟨manager', hrespond, hw'⟩ := Option.bind_eq_some_iff.mp hrest
    cases hok : w.respond env name tracker body with
    | error fault =>
        rw [hok] at hrespond
        cases hrespond
    | ok manager₁ =>
        rw [hok] at hrespond
        cases hrespond
        have hlife := life_of_find hfind
        have hprotocol := h.placed.place_of_request hidle.2
        obtain ⟨hplaced, hothers, hanswered, hloop⟩ :=
          finished_spec h.placed hfind hidle.2 hok (Option.some.inj hw').symm
        refine ⟨hplaced, fun n a hn => ?_, fun n hn => ?_, fun hinactive => ?_, ?_, ?_, ?_⟩
        · by_cases heq : n = name
          · rw [heq] at hn ⊢
            cases hlife.symm.trans hn
            exact .answers rfl hprotocol hanswered
          · rw [hothers n heq, hn]
            exact .stays (fun _ h => by cases h) fun body' hbody => heq (TrackerEvent.finished.inj hbody).1.symm
        · exact absent_of_others hlife hothers hn
        · have hstill : w.manager.active = false :=
            (congrArg EventLoop.active hloop).symm.trans hinactive
          rw [List.eq_nil_iff_forall_not_mem]
          intro n hn
          obtain ⟨a', hlife', hin⟩ := hplaced.life_of_mem hn
          by_cases heq : n = name
          · rw [heq] at hlife'
            rw [hlife'] at hanswered
            cases hanswered with
            | withoutPeers => cases hin
            | returned hactive => cases hstill.symm.trans hactive
            | reset => cases hin
          · rw [hothers n heq] at hlife'
            have hmem := (mem_space_iff hlife').mpr hin
            rw [h.rests hstill] at hmem
            cases hmem
        · rw [← Option.some.inj hw']
          exact fun c hc => Or.inl hc
        · rw [← Option.some.inj hw']
          exact (Rat.add_zero _).symm
        · rw [← Option.some.inj hw']
  · cases hrest

theorem lookup_map_snd {entries : List (ByteString × Tracker)} (g : Tracker → Tracker) :
    (entries.map fun entry => (entry.1, g entry.2)).lookup n = (entries.lookup n).map g := by
  induction entries with
  | nil => rfl
  | cons entry entries ih =>
      obtain ⟨key, value⟩ := entry
      rw [List.map_cons, List.lookup_cons, List.lookup_cons]
      dsimp only
      split
      · rfl
      · exact ih

theorem elapse_stepped {time : Rat} (h : Consistent w) (hstep : w.step env (.elapse time) = some w') :
    Stepped w (.elapse time) w' := by
  rw [step] at hstep
  split at hstep
  · rename_i hidle
    have hw' := Option.some.inj hstep
    have hfound : ∀ n, w'.find n = (w.find n).map (Tracker.elapse time) := by
      intro n
      rw [← hw']
      exact lookup_map_snd (Tracker.elapse time)
    have hlife : ∀ n, w'.life n = (w.life n).map fun a => ⟨a.tracker.elapse time, a.place⟩ := by
      intro n
      rw [life, life, hfound, Option.map_map, Option.map_map, ← hw']
      rfl
    refine ⟨⟨?_, fun n tracker hn => ?_, ?_, fun i n hi => ?_, ?_⟩, fun n a hn => ?_, fun n hn => ?_,
      ?_, ?_, ?_, ?_⟩
    · rw [← hw']
      dsimp only
      rw [List.map_map]
      exact h.placed.keys
    · rw [hfound] at hn
      obtain ⟨before, hbefore, rfl⟩ := Option.map_eq_some_iff.mp hn
      exact h.placed.domains n before hbefore
    · rw [← hw']
      exact h.placed.nodup
    · rw [← hw'] at hi
      obtain ⟨before, hbefore, hidx⟩ := h.placed.indexed i n hi
      exact ⟨before.elapse time, by rw [hfound, hbefore]; rfl, hidx⟩
    · rw [← hw']
      exact h.placed.disjoint
    · rw [hlife, hn]
      exact .elapses rfl hidle.2
    · rw [hlife, hn]
      rfl
    · rw [← hw']
      exact h.rests
    · rw [← hw']
      exact fun c hc => Or.inl hc
    · rw [← hw']
      rfl
    · rw [← hw']
      rfl
  · cases hstep

/-- **What one step does**, while the bookkeeping is right and a start finds no request outstanding. -/
theorem step_stepped (h : Consistent w) (hrequests : w.running e = some .start → w.requests = [])
    (hstep : w.step env e = some w') : Stepped w e w' := by
  cases e with
  | signal e => exact signal_stepped h hrequests hstep
  | timerExpires name which => exact timerExpires_stepped h hstep
  | finished name body => exact finished_stepped h hstep
  | elapse time => exact elapse_stepped h hstep
  | consume count =>
      cases hstep
      refine ⟨h.placed.congr rfl rfl rfl, fun n a hlife => ?_, fun n hn => hn, h.rests, fun c hc => Or.inl hc, (Rat.add_zero _).symm, rfl⟩
      show Moves w _ n a (w.life n)
      rw [hlife]
      exact .stays (fun _ h => by cases h) (fun _ h => by cases h)

end TrackerWorld

end TorrentEngine
