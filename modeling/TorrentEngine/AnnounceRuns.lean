import TorrentEngine.TrackerAnnounces

/-! The announces of whole runs, as trackers read them. Each goes to a url of the torrent, under the host that
it is listed with, and says what the calls of `update_context` before it add up to. No announce ever says that
the download has stopped or is completed. -/

open Transition

namespace TorrentEngine

open Bencode Tracker QueryString

/-! ### The id of a tracker -/

/-- The id that a response gives its tracker. -/
def idIn (body : List Byte) : Option ByteString :=
  match Decode.input body with
  | some (.dictionary parse _) =>
      match Bencode.find "tracker id" parse with
      | some (.string id _) => some id
      | _ => none
  | _ => none

namespace Tracker

variable {env : TrackerEnvironment} {name : ByteString} {manager manager' : TrackerManager}
  {tracker tracker' : Tracker} {parse : Dictionary}

theorem finish_credentials (h : finish name manager tracker = (manager', tracker')) :
    manager'.trackerConnections = manager.trackerConnections ∧ tracker'.credentials = tracker.credentials := by
  rw [finish] at h
  split at h
  · cases h
    exact ⟨rfl, rfl⟩
  · cases h
    exact ⟨rfl, rfl⟩

theorem inactiveStateHandler_credentials
    (h : inactiveStateHandler env name manager tracker = .ok (manager', tracker')) :
    manager'.trackerConnections = manager.trackerConnections ∧ tracker'.credentials = tracker.credentials := by
  rw [inactiveStateHandler] at h
  obtain ⟨⟨exhausted, failed⟩, hfailed, hrest⟩ := Except.bind_eq_ok.mp h
  obtain ⟨failures, maximumDuration, currentIdx, failedIdx, justFailed, rfl⟩ := failAnnounce_eq hfailed
  obtain ⟨hmanager, hcredentials⟩ := finish_credentials (Except.ok.inj hrest)
  exact ⟨hmanager, hcredentials⟩

/-- A response may bring the tracker an id, and brings no urls. -/
theorem activeStateHandler_credentials {data : List Byte} {p : SourceStats}
    (hinput : Decode.input data = some (.dictionary parse p))
    (h : activeStateHandler env name manager tracker parse = .ok (manager', tracker')) :
    manager'.trackerConnections = manager.trackerConnections ∧
      tracker'.announceUrl.list = tracker.announceUrl.list ∧
        (tracker'.trackerId = tracker.trackerId ∨ idIn data = some tracker'.trackerId) := by
  obtain ⟨tracker₁, tracker₂, tracker₃, queued, hinterval, hmin, hid, -, hresult⟩ := activeStateHandler_reads h
  have hlist : tracker₃.announceUrl.list = tracker.announceUrl.list := by
    rw [(fieldsRead hinterval hmin hid).announceUrl]
    rfl
  have hbefore : tracker₂.trackerId = tracker.trackerId := calc
    _ = tracker₁.trackerId := readField_keeps Tracker.trackerId hmin fun _ _ => rfl
    _ = _ := readField_keeps Tracker.trackerId hinterval fun _ _ => rfl
  have hread : tracker₃.trackerId = tracker.trackerId ∨ idIn data = some tracker₃.trackerId := by
    rcases readField_eq_ok hid with ⟨-, rfl⟩ | ⟨found, id, hfound, hstring, rfl⟩
    · exact Or.inl hbefore
    · obtain ⟨q, rfl⟩ := Data.getAsString_eq_ok.mp hstring
      refine Or.inr ?_
      rw [idIn, hinput]
      dsimp only
      rw [hfound]
  rcases hresult with ⟨-, heq⟩ | ⟨discoveries, signalled, -, heq⟩
  · cases heq
    exact ⟨rfl, hlist, hread⟩
  · obtain ⟨hmanager, hcredentials⟩ := finish_credentials heq.symm
    have harmed : tracker₃.armTimers.credentials = tracker₃.credentials := by
      rw [armTimers_eq]
      split
      · rfl
      · rfl
    have hsame := Prod.mk.inj (hcredentials.trans harmed)
    exact ⟨hmanager, hsame.1.trans hlist, hsame.2 ▸ hread⟩

end Tracker

/-- What is left of a tracker's urls and of its id, when a request of this tracker ends. -/
def Credited (name : ByteString) (body : Option (List Byte)) (n : ByteString) (tracker tracker' : Tracker) : Prop :=
  tracker'.announceUrl.list = tracker.announceUrl.list ∧
    (tracker'.trackerId = tracker.trackerId ∨
      n = name ∧ ∃ data, body = some data ∧ idIn data = some tracker'.trackerId)

namespace TrackerWorld

variable {env : TrackerEnvironment} {w w' : TrackerWorld} {name n : ByteString} {body : Option (List Byte)}
  {tracker tracker' : Tracker}

theorem find_stored {manager : TrackerManager} {after : Tracker}
    (hmanager : manager.trackerConnections = w.manager.trackerConnections) (hfind : w.find name = some tracker)
    (hafter : Credited name body name tracker after) (hn : (manager.store name after).find n = some tracker') :
    ∃ before, w.find n = some before ∧ Credited name body n before tracker' := by
  have hsame : manager.find n = w.find n := congrArg (List.lookup n) hmanager
  rw [TrackerManager.find_store_eq, hsame] at hn
  split at hn
  · rename_i heq
    obtain ⟨before, -, rfl⟩ := Option.map_eq_some_iff.mp hn
    exact ⟨tracker, by rwa [heq], heq ▸ hafter⟩
  · exact ⟨tracker', hn, rfl, Or.inl rfl⟩

theorem ended_credited {manager' : TrackerManager} (hfind : w.find name = some tracker)
    (hended : Ended env w.manager name body tracker manager') (hn : manager'.find n = some tracker') :
    ∃ before, w.find n = some before ∧ Credited name body n before tracker' := by
  cases hended with
  | erased =>
      by_cases heq : n = tracker.announceUrl.domainName
      · rw [heq, TrackerManager.find_erase] at hn
        cases hn
      · rw [find_erase_of_ne heq] at hn
        exact ⟨tracker', hn, rfl, Or.inl rfl⟩
  | failed hfails hbefore hhandler =>
      obtain ⟨data, online, rfl⟩ := hbefore
      obtain ⟨hmanager, hcredentials⟩ := inactiveStateHandler_credentials hhandler
      have hsame := Prod.mk.inj hcredentials
      exact find_stored hmanager hfind ⟨hsame.1, Or.inl hsame.2⟩ hn
  | @succeeded _ _ data _ _ hsuccess hbody hinput hhandler =>
      obtain ⟨hmanager, hlist, hid⟩ := activeStateHandler_credentials hinput hhandler
      exact find_stored hmanager hfind ⟨hlist, hid.imp_right fun hid => ⟨rfl, data, hbody, hid⟩⟩ hn

/-- The end of a request leaves the trackers their urls, and their ids where the response gives none. -/
theorem finished_credited (hkeys : w.keys.Nodup) (hstep : w.step env (.finished name body) = some w')
    (hn : w'.find n = some tracker') : ∃ before, w.find n = some before ∧ Credited name body n before tracker' := by
  cases step_replans hkeys hstep with
  | keeps hne => exact absurd rfl (hne name body)
  | starts hne => exact absurd rfl (hne name body)
  | ends hfind _ hended hmanager _ =>
      rw [find, hmanager, TrackerManager.find_change] at hn
      split at hn
      · obtain ⟨after, hafter, rfl⟩ := Option.map_eq_some_iff.mp hn
        have hcredited := ended_credited hfind hended hafter
        exact hcredited
      · exact ended_credited hfind hended hn

/-! ### The urls of a tracker -/

/-- The tracker is listed with urls of the torrent, each under its host. -/
def ListedFrom (urls : List ByteString) (n : ByteString) (tracker : Tracker) : Prop :=
  ∀ url ∈ tracker.announceUrl.list, url ∈ urls ∧ getHostname url = some n

theorem ListedFrom.noteUrl {urls : List ByteString} {url : ByteString} (h : ListedFrom urls n tracker)
    (hurl : url ∈ urls) (hname : getHostname url = some n) :
    ListedFrom urls n (TrackerManager.noteUrl url tracker) := by
  intro other hother
  rw [TrackerManager.noteUrl] at hother
  dsimp only at hother
  split at hother
  · exact h other hother
  · rcases List.mem_append.mp hother with hold | hnew
    · exact h other hold
    · rw [List.mem_singleton.mp hnew]
      exact ⟨hurl, hname⟩

end TrackerWorld

/-! ### Runs -/

namespace Announcer

open TrackerWorld ManagerContext

variable {env : TrackerEnvironment} {curlEscape : List Byte → List Byte} {torrent : TorrentFile} {port : Int32}
  {a a₀ a₁ a' : Announcer} {e : AnnouncerEvent} {es : List AnnouncerEvent} {urls : List ByteString}
  {n : ByteString} {tracker : Tracker}

/-- The ids that this tracker gave in its responses. -/
def idsOf (name : ByteString) (es : List AnnouncerEvent) : List ByteString :=
  es.filterMap fun
    | .trackers (.finished n (some body)) => if n = name then idIn body else none
    | _ => none

/-- The calls of `update_context`. -/
def updatesOf (es : List AnnouncerEvent) : List (Nat × Nat) :=
  es.filterMap fun
    | .updateContext dwn upd => some (dwn, upd)
    | _ => none

/-- What the announces after these events may say. -/
structure Entitled (context : ManagerContext) (urls : List ByteString) (es : List AnnouncerEvent)
    (a : Announcer) : Prop where
  totals : a.context = context.updated (updatesOf es)
  trackers : ∀ n tracker, a.world.find n = some tracker → ListedFrom urls n tracker ∧
    (tracker.trackerId = .empty ∨ tracker.trackerId ∈ idsOf n es)

theorem mem_idsOf_append {id : ByteString} (h : id ∈ idsOf n es) (e : AnnouncerEvent) : id ∈ idsOf n (es ++ [e]) := by
  rw [idsOf, List.filterMap_append]
  exact List.mem_append_left _ h

theorem Entitled.kept {context : ManagerContext} (h : Entitled context urls es a) (e : TrackerEvent)
    (hcontext : a'.context = a.context) (hkeeps : KeepsPart credentials a.world a'.world) :
    Entitled context urls (es ++ [.trackers e]) a' := by
  refine ⟨?_, fun n tracker' hfind' => ?_⟩
  · rw [hcontext, h.totals, updatesOf, updatesOf, List.filterMap_append]
    simp
  · obtain ⟨tracker, hfind, hcredentials⟩ := hkeeps n tracker' hfind'
    obtain ⟨hlisted, hid⟩ := h.trackers n tracker hfind
    have hsame := Prod.mk.inj hcredentials
    rw [ListedFrom, hsame.1, hsame.2]
    exact ⟨hlisted, hid.imp_right (mem_idsOf_append · _)⟩

/-- **Step lemma.** -/
theorem Entitled.acts {context : ManagerContext} (h : Entitled context urls es a) (hkeys : a.world.keys.Nodup)
    (hacts : Acts env a e a') : Entitled context urls (es ++ [e]) a' := by
  cases hacts with
  | announces _ hannounces =>
      refine h.kept _ hannounces.context fun n tracker' hfind' => ?_
      obtain ⟨tracker, hfind, hvoice⟩ := hannounces.voices n tracker' hfind'
      exact ⟨tracker, hfind, credentials_of_voice hvoice⟩
  | starts _ hkeeps => exact h.kept _ rfl hkeeps
  | updates dwn upd =>
      refine ⟨?_, fun n tracker hfind => (h.trackers n tracker hfind).imp_right fun hid =>
        hid.imp_right (mem_idsOf_append · _)⟩
      have hupdates : updatesOf (es ++ [.updateContext dwn upd]) = updatesOf es ++ [(dwn, upd)] := by
        rw [updatesOf, List.filterMap_append]
        rfl
      have htotals := h.totals
      rw [updated] at htotals
      rw [hupdates, updated, List.foldl_append, ← htotals]
      rfl
  | @ends name body w hstep =>
      refine ⟨?_, fun n tracker' hfind' => ?_⟩
      · rw [updatesOf, List.filterMap_append]
        exact h.totals.trans (by simp [updatesOf])
      · obtain ⟨tracker, hfind, hlist, hid'⟩ := finished_credited hkeys hstep hfind'
        obtain ⟨hlisted, hid⟩ := h.trackers n tracker hfind
        rw [ListedFrom, hlist]
        refine ⟨hlisted, ?_⟩
        rcases hid' with hsame | ⟨rfl, data, rfl, hgiven⟩
        · rw [hsame]
          exact hid.imp_right (mem_idsOf_append · _)
        · refine Or.inr ?_
          rw [idsOf, List.filterMap_append]
          refine List.mem_append_right _ ?_
          simp [hgiven]

/-- What a tracker is told of the torrent and of the client, after these calls of `update_context`. -/
def report (torrent : TorrentFile) (port : Int32) (updates : List (Nat × Nat)) : List (List Byte × List Byte) :=
  [(text "info_hash", torrent.infoHashByte.toList), (text "peer_id", Handshake.clientId),
    (text "port", toDecimal port.toInt),
    (text "uploaded", toDecimal ((updates.map Prod.snd).sum % 2 ^ 64 : Nat)),
    (text "downloaded", toDecimal ((updates.map Prod.fst).sum % 2 ^ 64 : Nat)),
    (text "left", toDecimal (SizeT.sub (SizeT.ofInt torrent.downloadSize.toInt) (updates.map Prod.fst).sum)),
    (text "compact", text "1")]

end Announcer

end TorrentEngine
