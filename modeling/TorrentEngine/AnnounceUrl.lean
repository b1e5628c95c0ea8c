import TorrentEngine.BencodeEncode
import TorrentEngine.InfoHash
import TorrentEngine.Library.QueryString
import TorrentEngine.TrackerHistory

/-! The url of an announce: the parameters that `get_request_params` joins, what
`set_announce_url_for_tracker` puts around them, and what a tracker reads when it takes the url apart. -/

namespace TorrentEngine

open Bencode QueryString

/-- `tracker_event`. -/
inductive AnnounceEvent where
  | started
  | stopped
  | completed
  | update
  deriving DecidableEq

def text (s : String) : List Byte := s.toList.map ascii

/-- `event_strings`. -/
def eventStrings : AnnounceEvent → List Byte
  | .started => text "&event=started"
  | .stopped => text "&event=stopped"
  | .completed => text "&event=completed"
  | .update => []

/-- `manager_context_t`, as far as requests use it. -/
structure ManagerContext where
  uploaded : Nat
  downloaded : Nat
  left : Nat
  port : Int32
  compact : Int32
  escapedInfoHashByte : List Byte

namespace ManagerContext

/-- The context after the constructor. The escaping is done by `curl_escape`. -/
def constructed (curlEscape : List Byte → List Byte) (torrent : TorrentFile) (port : Int32) :
    ManagerContext where
  uploaded := 0
  downloaded := 0
  left := SizeT.ofInt torrent.downloadSize.toInt
  port := port
  compact := 1
  escapedInfoHashByte := curlEscape torrent.infoHashByte.toList

def updateContext (context : ManagerContext) (dwn upd : Nat) : ManagerContext :=
  { context with
    downloaded := SizeT.add context.downloaded dwn
    uploaded := SizeT.add context.uploaded upd
    left := SizeT.sub context.left dwn }

def makeParam (key value : List Byte) : List Byte := key ++ ascii '=' :: value

/-- The array of parameters, whose last element is left empty. -/
def params (context : ManagerContext) : Vector (List Byte) 8 :=
  #v[makeParam (text "info_hash") context.escapedInfoHashByte,
    makeParam (text "peer_id") Handshake.clientId,
    makeParam (text "port") (toDecimal context.port.toInt),
    makeParam (text "uploaded") (toDecimal context.uploaded),
    makeParam (text "downloaded") (toDecimal context.downloaded),
    makeParam (text "left") (toDecimal context.left),
    makeParam (text "compact") (toDecimal context.compact.toInt),
    []]

/-- The loop of `accumulate_params`, and `pop_back`. -/
def accumulateParams (params : Vector (List Byte) 8) : List Byte :=
  let loadedParameters := (List.finRange 8).foldl (fun loaded (i : Fin 8) =>
    loaded ++ if i ≠ 7 then params[i] ++ [ascii '&'] else params[i]) []
  loadedParameters.dropLast

def getRequestParams (context : ManagerContext) : List Byte := accumulateParams context.params

/-- `set_announce_url_for_tracker`, where the tracker has a url. -/
def announceUrl (context : ManagerContext) (tracker : Tracker) (event : AnnounceEvent) : Option (List Byte) :=
  let trackerId := if tracker.trackerId.bytes = [] then []
    else ascii '&' :: text "trackerid=" ++ tracker.trackerId.bytes
  tracker.getUrl.map fun url =>
    url.bytes ++ [ascii '?'] ++ context.getRequestParams ++ trackerId ++ eventStrings event

/-! ### What a tracker reads -/

/-- The parameters, before they are joined. -/
def fields (context : ManagerContext) : List (List Byte × List Byte) :=
  [(text "info_hash", context.escapedInfoHashByte), (text "peer_id", Handshake.clientId),
    (text "port", toDecimal context.port.toInt), (text "uploaded", toDecimal context.uploaded),
    (text "downloaded", toDecimal context.downloaded), (text "left", toDecimal context.left),
    (text "compact", toDecimal context.compact.toInt)]

/-- The field of a tracker id, which is sent where there is one. -/
def idField (tracker : Tracker) : List (List Byte × List Byte) :=
  if tracker.trackerId.bytes = [] then [] else [(text "trackerid", tracker.trackerId.bytes)]

def eventField : AnnounceEvent → List (List Byte × List Byte)
  | .started => [(text "event", text "started")]
  | .stopped => [(text "event", text "stopped")]
  | .completed => [(text "event", text "completed")]
  | .update => []

theorem getRequestParams_eq (context : ManagerContext) :
    context.getRequestParams = [ampersand].intercalate (context.fields.map field) := by
  have hand : ascii '&' = ampersand := rfl
  have hequals : ascii '=' = equalsSign := rfl
  have hlast : ∀ (loaded param : List Byte), (loaded ++ (param ++ [ampersand]) ++ []).dropLast = loaded ++ param := by
    intro loaded param
    rw [List.append_nil, ← List.append_assoc, List.dropLast_concat]
  have hfold : context.getRequestParams = ([] ++ (context.params[0] ++ [ascii '&']) ++
      (context.params[1] ++ [ascii '&']) ++ (context.params[2] ++ [ascii '&']) ++
      (context.params[3] ++ [ascii '&']) ++ (context.params[4] ++ [ascii '&']) ++
      (context.params[5] ++ [ascii '&']) ++ (context.params[6] ++ [ascii '&']) ++ []).dropLast := rfl
  rw [hfold, hand, hlast]
  simp [fields, field, params, makeParam, hequals, List.intercalate]

theorem announceUrl_eq {context : ManagerContext} {tracker : Tracker} {event : AnnounceEvent} {url : ByteString}
    (hurl : tracker.getUrl = some url) :
    context.announceUrl tracker event = some (url.bytes ++ questionMark ::
      [ampersand].intercalate ((context.fields ++ idField tracker ++ eventField event).map field)) := by
  have hid : (if tracker.trackerId.bytes = [] then []
      else ascii '&' :: text "trackerid=" ++ tracker.trackerId.bytes) =
        ((idField tracker).map field).flatMap (ampersand :: ·) := by
    rw [idField]
    split
    · rfl
    · rw [List.map_singleton, List.flatMap_singleton, field]
      rfl
  have hevent : eventStrings event = ((eventField event).map field).flatMap (ampersand :: ·) := by
    cases event <;> rfl
  rw [announceUrl, hurl, Option.map_some, hid, hevent, getRequestParams_eq,
    List.append_assoc context.fields, List.map_append,
    intercalate_append _ (by simp [fields]), List.map_append, List.flatMap_append]
  simp only [List.append_assoc, List.singleton_append]
  rfl

/-! ### Totals -/

/-- The context after these calls of `update_context`. -/
def updated (context : ManagerContext) (updates : List (Nat × Nat)) : ManagerContext :=
  updates.foldl (fun context update => context.updateContext update.1 update.2) context

/-- The counters are kept as a `size_t` keeps them. -/
def InRange (context : ManagerContext) : Prop :=
  context.uploaded < 2 ^ 64 ∧ context.downloaded < 2 ^ 64 ∧ context.left < 2 ^ 64

theorem updated_eq (updates : List (Nat × Nat)) {context : ManagerContext} (h : context.InRange) :
    context.updated updates = { context with
      uploaded := SizeT.add context.uploaded (updates.map Prod.snd).sum
      downloaded := SizeT.add context.downloaded (updates.map Prod.fst).sum
      left := SizeT.sub context.left (updates.map Prod.fst).sum } := by
  induction updates generalizing context with
  | nil =>
      obtain ⟨huploaded, hdownloaded, hleft⟩ := h
      simp only [updated, List.foldl_nil, List.map_nil, List.sum_nil, SizeT.add, SizeT.sub, Nat.add_zero]
      rw [Nat.mod_eq_of_lt huploaded, Nat.mod_eq_of_lt hdownloaded, Nat.zero_mod, Nat.sub_zero,
        Nat.add_mod_right, Nat.mod_eq_of_lt hleft]
  | cons update updates ih =>
      have hnext : (context.updateContext update.1 update.2).InRange :=
        ⟨Nat.mod_lt _ (by omega), Nat.mod_lt _ (by omega), Nat.mod_lt _ (by omega)⟩
      rw [updated, List.foldl_cons, ← updated, ih hnext]
      simp only [updateContext, List.map_cons, List.sum_cons, SizeT.add, SizeT.sub]
      congr 1
      · omega
      · omega
      · omega

/-! ### The url a tracker is sent -/

theorem not_mem_toDecimal {c : Byte} (hdigit : Decimal.isDigit c = false) (hminus : c ≠ Decimal.minus) (n : Int) :
    c ∉ toDecimal n := (Value.numeral_toDecimal n).not_mem hdigit hminus

theorem unescape_toDecimal (n : Int) : unescape (toDecimal n) = toDecimal n :=
  unescape_of_not_mem (not_mem_toDecimal (by decide) (by decide) n)

/-- A parameter whose key is one of the program's own words. -/
theorem separable_text {key : String} {value : List Byte}
    (hkey : equalsSign ∉ text key ∧ ampersand ∉ text key ∧ hash ∉ text key) (hampersand : ampersand ∉ value)
    (hhash : hash ∉ value) : Separable (text key, value) :=
  ⟨hkey.1, hkey.2.1, hkey.2.2, hampersand, hhash⟩

theorem separable_toDecimal {key : String}
    (hkey : equalsSign ∉ text key ∧ ampersand ∉ text key ∧ hash ∉ text key) (n : Int) :
    Separable (text key, toDecimal n) :=
  separable_text hkey (not_mem_toDecimal (by decide) (by decide) n) (not_mem_toDecimal (by decide) (by decide) n)

theorem separable_fields {context : ManagerContext} {bytes : List Byte}
    (h : context.escapedInfoHashByte = escape bytes) : ∀ pair ∈ context.fields, Separable pair := by
  have hclient : ampersand ∉ Handshake.clientId ∧ hash ∉ Handshake.clientId := by decide
  simp only [fields, List.forall_mem_cons, List.not_mem_nil, false_implies, implies_true, and_true, h]
  exact ⟨separable_text (by decide) (not_mem_escape rfl (by decide)) (not_mem_escape rfl (by decide)),
    separable_text (by decide) hclient.1 hclient.2, separable_toDecimal (by decide) _,
    separable_toDecimal (by decide) _, separable_toDecimal (by decide) _, separable_toDecimal (by decide) _,
    separable_toDecimal (by decide) _⟩

theorem separable_idField {tracker : Tracker} (hampersand : ampersand ∉ tracker.trackerId.bytes)
    (hhash : hash ∉ tracker.trackerId.bytes) : ∀ pair ∈ idField tracker, Separable pair := by
  intro pair hpair
  rw [idField] at hpair
  split at hpair
  · cases hpair
  · rw [List.mem_singleton.mp hpair]
    exact separable_text (by decide) hampersand hhash

theorem separable_eventField (event : AnnounceEvent) : ∀ pair ∈ eventField event, Separable pair := by
  cases event with
  | started => exact List.forall_mem_singleton.mpr (separable_text (by decide) (by decide) (by decide))
  | stopped => exact List.forall_mem_singleton.mpr (separable_text (by decide) (by decide) (by decide))
  | completed => exact List.forall_mem_singleton.mpr (separable_text (by decide) (by decide) (by decide))
  | update => exact List.forall_mem_nil _

theorem separable_announce {context : ManagerContext} {bytes : List Byte} {tracker : Tracker}
    (hescaped : context.escapedInfoHashByte = escape bytes) (hampersand : ampersand ∉ tracker.trackerId.bytes)
    (hhash : hash ∉ tracker.trackerId.bytes) (event : AnnounceEvent) :
    ∀ pair ∈ context.fields ++ idField tracker ++ eventField event, Separable pair := by
  intro pair hpair
  rw [List.mem_append, List.mem_append] at hpair
  rcases hpair with (hpair | hpair) | hpair
  · exact separable_fields hescaped pair hpair
  · exact separable_idField hampersand hhash pair hpair
  · exact separable_eventField event pair hpair

section Sent

variable {curlEscape : List Byte → List Byte} {tracker : Tracker} {url : ByteString}

theorem constructed_updated (torrent : TorrentFile) (port : Int32) (updates : List (Nat × Nat)) :
    (constructed curlEscape torrent port).updated updates =
      { constructed curlEscape torrent port with
        uploaded := (updates.map Prod.snd).sum % 2 ^ 64
        downloaded := (updates.map Prod.fst).sum % 2 ^ 64
        left := SizeT.sub (SizeT.ofInt torrent.downloadSize.toInt) (updates.map Prod.fst).sum } := by
  have hleft : SizeT.ofInt torrent.downloadSize.toInt < 2 ^ 64 := by
    rw [SizeT.ofInt]
    omega
  have hrange : (constructed curlEscape torrent port).InRange := ⟨Nat.two_pow_pos 64, Nat.two_pow_pos 64, hleft⟩
  rw [updated_eq updates hrange]
  simp only [constructed, SizeT.add, Nat.zero_add]

theorem escapedInfoHashByte_updated (hescape : ∀ bytes, curlEscape bytes = escape bytes) (torrent : TorrentFile)
    (port : Int32) (updates : List (Nat × Nat)) :
    ((constructed curlEscape torrent port).updated updates).escapedInfoHashByte =
      escape torrent.infoHashByte.toList := by
  rw [constructed_updated]
  exact hescape _

/-- A tracker reads back the fields, with the info hash as it was before the escaping. -/
theorem readUrl_announceUrl {context : ManagerContext} {bytes : List Byte}
    (hescaped : context.escapedInfoHashByte = escape bytes) (event : AnnounceEvent) (hurl : tracker.getUrl = some url)
    (hquestion : questionMark ∉ url.bytes) (hfragment : hash ∉ url.bytes)
    (hampersand : ampersand ∉ tracker.trackerId.bytes) (hhash : hash ∉ tracker.trackerId.bytes)
    (hpercent : percent ∉ tracker.trackerId.bytes) :
    (context.announceUrl tracker event).map readUrl =
      some (url.bytes,
        { context with escapedInfoHashByte := bytes }.fields ++ idField tracker ++ eventField event) := by
  have hid : (idField tracker).map (fun pair => (pair.1, unescape pair.2)) = idField tracker := by
    rw [idField]
    split
    · rfl
    · rw [List.map_singleton, unescape_of_not_mem hpercent]
  have hevent : (eventField event).map (fun pair => (pair.1, unescape pair.2)) = eventField event := by
    cases event <;> rfl
  have hclient : unescape Handshake.clientId = Handshake.clientId := unescape_of_not_mem (by decide)
  rw [announceUrl_eq hurl, Option.map_some, readUrl_fields hquestion hfragment (by simp [fields])
    (separable_announce hescaped hampersand hhash event), List.map_append, List.map_append, hid, hevent]
  simp only [fields, List.map_cons, List.map_nil, unescape_toDecimal, hclient, hescaped, unescape_escape]

/-- **A tracker reads the announce as it was meant**: the url of the tracker, the twenty bytes of the info hash,
and what the calls of `update_context` add up to. The id of a tracker is sent as the tracker gave it, so it is read
back where no separator is in it. -/
theorem announceUrl_read (hescape : ∀ bytes, curlEscape bytes = escape bytes) (torrent : TorrentFile) (port : Int32)
    (updates : List (Nat × Nat)) (event : AnnounceEvent) (hurl : tracker.getUrl = some url)
    (hquestion : questionMark ∉ url.bytes) (hfragment : hash ∉ url.bytes)
    (hampersand : ampersand ∉ tracker.trackerId.bytes) (hhash : hash ∉ tracker.trackerId.bytes)
    (hpercent : percent ∉ tracker.trackerId.bytes) :
    (((constructed curlEscape torrent port).updated updates).announceUrl tracker event).map readUrl =
      some (url.bytes,
        [(text "info_hash", torrent.infoHashByte.toList), (text "peer_id", Handshake.clientId),
          (text "port", toDecimal port.toInt),
          (text "uploaded", toDecimal ((updates.map Prod.snd).sum % 2 ^ 64 : Nat)),
          (text "downloaded", toDecimal ((updates.map Prod.fst).sum % 2 ^ 64 : Nat)),
          (text "left", toDecimal (SizeT.sub (SizeT.ofInt torrent.downloadSize.toInt) (updates.map Prod.fst).sum)),
          (text "compact", text "1")] ++ idField tracker ++ eventField event) := by
  have hescaped := escapedInfoHashByte_updated hescape torrent port updates
  rw [readUrl_announceUrl hescaped event hurl hquestion hfragment hampersand hhash hpercent, constructed_updated]
  rfl

/-- A tracker of this url that has answered with an id. -/
def answeredTracker (url : String) : Tracker where
  data := []
  trackerId := .ofString "abc"
  state := .active
  currentProto := .http
  context := ⟨true, false, true, 0, 0⟩
  timers := ⟨0, ⟨false, 0⟩, 1800, ⟨true, 1800⟩, .one⟩
  announceUrl := ⟨[.ofString url], .ofString "t", 0, 2 ^ 64 - 1, false⟩

/-- A torrent of one byte. -/
def oneByteTorrent : TorrentFile := ⟨[], Vector.replicate 20 0x26, true, 1, 1, 1⟩

theorem announceUrl_read_oneByte :
    (((constructed escape oneByteTorrent 6881).updated [(1, 0)]).announceUrl (answeredTracker "http://t:80/a")
        .completed).map readUrl =
      some (text "http://t:80/a",
        [(text "info_hash", List.replicate 20 0x26), (text "peer_id", text "FJ0001-x4Kn8mR2pL9sq"),
          (text "port", text "6881"), (text "uploaded", text "0"), (text "downloaded", text "1"),
          (text "left", text "0"), (text "compact", text "1"), (text "trackerid", text "abc"),
          (text "event", text "completed")]) := by
  have hread := @announceUrl_read escape (answeredTracker "http://t:80/a") (.ofString "http://t:80/a")
    (fun _ => rfl) oneByteTorrent 6881 [(1, 0)] .completed rfl (by decide) (by decide) (by decide)
    (by decide) (by decide)
  exact hread.trans (by decide +kernel)

/-- **The info hash reaches a tracker if and only if the tracker's url has no query and no fragment**, where the url
has no `info_hash` of its own: behind a query it is read as a part of the query's last field. -/
theorem announceUrl_infoHash_iff (hescape : ∀ bytes, curlEscape bytes = escape bytes) (torrent : TorrentFile)
    (port : Int32) (updates : List (Nat × Nat)) (event : AnnounceEvent) (hurl : tracker.getUrl = some url)
    (hown : text "info_hash" ∉ (readUrl url.bytes).2.map Prod.fst)
    (hampersand : ampersand ∉ tracker.trackerId.bytes)
    (hhash : hash ∉ tracker.trackerId.bytes) :
    ∃ announced,
      ((constructed curlEscape torrent port).updated updates).announceUrl tracker event = some announced ∧
      (text "info_hash" ∈ (readUrl announced).2.map Prod.fst ↔
        questionMark ∉ url.bytes ∧ hash ∉ url.bytes) := by
  have hescaped := escapedInfoHashByte_updated hescape torrent port updates
  refine ⟨_, announceUrl_eq hurl, ?_⟩
  have hseparable := separable_announce hescaped hampersand hhash event
  rw [fields, List.cons_append, List.cons_append] at hseparable ⊢
  have hkey : questionMark ∉ text "info_hash" := by decide
  refine readUrl_fields_iff hseparable hkey hown ?_
  have hid : text "info_hash" ∉ (idField tracker).map Prod.fst := by
    rw [idField]
    split
    · exact List.not_mem_nil
    · have hne : text "info_hash" ≠ text "trackerid" := by decide
      rw [List.map_singleton, List.mem_singleton]
      exact hne
  have hevent : text "info_hash" ∉ (eventField event).map Prod.fst := by
    cases event <;> decide
  simp only [List.map_append, List.map_cons, List.map_nil, List.mem_append, not_or]
  exact ⟨⟨by decide, hid⟩, hevent⟩

theorem announceUrl_infoHash_iff_passkey :
    ∃ announced, ((constructed escape oneByteTorrent 6881).updated []).announceUrl
        (answeredTracker "http://t:80/a?passkey=1") .update = some announced ∧
      text "info_hash" ∉ (readUrl announced).2.map Prod.fst := by
  obtain ⟨announced, hannounced, hiff⟩ :=
    @announceUrl_infoHash_iff escape (answeredTracker "http://t:80/a?passkey=1")
      (.ofString "http://t:80/a?passkey=1") (fun _ => rfl) oneByteTorrent 6881 [] .update rfl
      (by decide) (by decide) (by decide)
  exact ⟨announced, hannounced, fun hmem => (hiff.mp hmem).1 (by decide)⟩

end Sent

end ManagerContext

end TorrentEngine
