import TorrentEngine.TrackerResponse

/-! The responses that `do_on_success` gets through without an exception. Each field is read by an
unchecked variant access, where it is there; the peers are read only as far as an entry is not skipped. -/

namespace TorrentEngine

open Bencode Tracker

/-- A field that is an integer where it is there, and one that is a string. -/
def IntegerField (key : String) (map : Dictionary) : Prop :=
  ∀ d, find key map = some d → ∃ value p, d = .integer value p

def StringField (key : String) (map : Dictionary) : Prop :=
  ∀ d, find key map = some d → ∃ value p, d = .string value p

/-- The entry names an address that `inet_pton` takes. -/
def HasAddress (env : TrackerEnvironment) (peerMap : Dictionary) : Prop :=
  ∃ peerAddr p, find "ip" peerMap = some (.string peerAddr p) ∧
    (env.inetPton4 (peerAddr.bytes.takeWhile (· ≠ 0)) ≠ none ∨
      env.inetPton6 (peerAddr.bytes.takeWhile (· ≠ 0)) ≠ none)

/-- An entry of a list of peers whose fields have the types expected. The port is read only after an
address. -/
def TypedPeer (env : TrackerEnvironment) (peer : Data) : Prop :=
  ∃ peerMap p, peer = .dictionary peerMap p ∧ StringField "peer id" peerMap ∧
    StringField "ip" peerMap ∧ (HasAddress env peerMap → IntegerField "port" peerMap)

/-- A response whose fields have the types expected. Peers that are neither a string nor a list are
passed over. -/
structure TypedResponse (env : TrackerEnvironment) (parse : Dictionary) : Prop where
  interval : IntegerField "interval" parse
  minInterval : IntegerField "min interval" parse
  trackerId : StringField "tracker id" parse
  peers : ∀ peerList p, find "peers" parse = some (.list peerList p) →
    ∀ peer ∈ peerList, TypedPeer env peer

/-- The bodies that are handled: an empty one, one that is not bencode, and a dictionary that names a
failure or is well typed. -/
def Handled (env : TrackerEnvironment) (body : List Byte) : Prop :=
  body = [] ∨ Decode.input body = none ∨
    ∃ parse p, Decode.input body = some (.dictionary parse p) ∧
      (contains "failure reason" parse = true ∨ TypedResponse env parse)

namespace Tracker

variable {env : TrackerEnvironment} {name : ByteString} {manager : TrackerManager} {tracker : Tracker}

theorem readField_returns {α : Type} (key : String) (getAs : Data → Except Fault α)
    (update : α → Tracker → Tracker) (parse : Dictionary) (tracker : Tracker) :
    (∃ tracker', readField key getAs update parse tracker = .ok tracker') ↔
      ∀ d, find key parse = some d → ∃ value, getAs d = .ok value := by
  rw [readField]
  cases find key parse with
  | none => exact iff_of_true ⟨tracker, rfl⟩ fun _ h => by cases h
  | some found =>
      simp only [Except.bind_eq_ok, Option.some.injEq, forall_eq']
      constructor
      · rintro ⟨_, value, hvalue, -⟩
        exact ⟨value, hvalue⟩
      · rintro ⟨value, hvalue⟩
        exact ⟨_, value, hvalue, rfl⟩

theorem readInterval_returns (parse : Dictionary) (tracker : Tracker) :
    (∃ tracker', readInterval parse tracker = .ok tracker') ↔ IntegerField "interval" parse := by
  rw [readInterval, readField_returns]
  simp only [Data.getAsInteger_eq_ok, IntegerField]

theorem readMinInterval_returns (parse : Dictionary) (tracker : Tracker) :
    (∃ tracker', readMinInterval parse tracker = .ok tracker') ↔
      IntegerField "min interval" parse := by
  rw [readMinInterval, readField_returns]
  simp only [Data.getAsInteger_eq_ok, IntegerField]

theorem readTrackerId_returns (parse : Dictionary) (tracker : Tracker) :
    (∃ tracker', readTrackerId parse tracker = .ok tracker') ↔ StringField "tracker id" parse := by
  rw [readTrackerId, readField_returns]
  simp only [Data.getAsString_eq_ok, StringField]

/-! ### The entries of a list of peers -/

theorem readPeerId_returns (peerMap : Dictionary) :
    (∃ peerId, readPeerId peerMap = .ok peerId) ↔ StringField "peer id" peerMap := by
  rw [readPeerId, StringField]
  cases find "peer id" peerMap with
  | none => exact iff_of_true ⟨none, rfl⟩ nofun
  | some found =>
      simp only [Except.bind_eq_ok, Data.getAsString_eq_ok, Option.some.injEq, forall_eq']
      constructor
      · rintro ⟨_, value, hvalue, -⟩
        exact ⟨value, hvalue⟩
      · rintro ⟨value, hvalue⟩
        exact ⟨_, value, hvalue, rfl⟩

theorem readPort_returns (peerMap : Dictionary) :
    (∃ port, readPort peerMap = .ok port) ↔ IntegerField "port" peerMap := by
  rw [readPort, IntegerField]
  cases find "port" peerMap with
  | none => exact iff_of_true ⟨none, rfl⟩ nofun
  | some found =>
      simp only [Except.bind_eq_ok, Data.getAsInteger_eq_ok, Option.some.injEq, forall_eq']
      constructor
      · rintro ⟨_, value, hvalue, -⟩
        exact ⟨value, hvalue⟩
      · rintro ⟨value, hvalue⟩
        exact ⟨_, value, hvalue, rfl⟩

/-- The address is read from a string, and there is one exactly if `inet_pton` takes it. -/
theorem readIp_spec (peerMap : Dictionary) :
    (StringField "ip" peerMap ∧ ∃ address, readIp env peerMap = .ok address ∧
        (address ≠ none ↔ HasAddress env peerMap)) ∨
      (¬ StringField "ip" peerMap ∧ readIp env peerMap = .error .badVariantAccess) := by
  rw [readIp, StringField, HasAddress]
  cases hip : find "ip" peerMap with
  | none => exact Or.inl ⟨(fun _ h => by cases h), none, rfl, by simp⟩
  | some found =>
      cases found with
      | string peerAddr p =>
          refine Or.inl ⟨fun d h => ⟨peerAddr, p, (Option.some.inj h).symm⟩, ?_⟩
          simp only [Data.getAsString, bind, Except.bind, Option.some.injEq, Data.string.injEq]
          cases h4 : env.inetPton4 (peerAddr.bytes.takeWhile (· ≠ 0)) with
          | some bytes =>
              exact ⟨_, rfl, iff_of_true (Option.some_ne_none _) ⟨peerAddr, p, ⟨rfl, rfl⟩,
                Or.inl (Option.ne_none_iff_exists'.mpr ⟨bytes, h4⟩)⟩⟩
          | none =>
              dsimp only
              cases h6 : env.inetPton6 (peerAddr.bytes.takeWhile (· ≠ 0)) with
              | some bytes =>
                  exact ⟨_, rfl, iff_of_true (Option.some_ne_none _) ⟨peerAddr, p, ⟨rfl, rfl⟩,
                    Or.inr (Option.ne_none_iff_exists'.mpr ⟨bytes, h6⟩)⟩⟩
              | none =>
                  refine ⟨_, rfl, iff_of_false (fun h => h rfl) ?_⟩
                  rintro ⟨_, _, ⟨rfl, rfl⟩, h | h⟩
                  · exact h h4
                  · exact h h6
      | integer _ _ =>
          refine Or.inr ⟨fun h => ?_, rfl⟩
          obtain ⟨_, _, heq⟩ := h _ rfl
          cases heq
      | list _ _ =>
          refine Or.inr ⟨fun h => ?_, rfl⟩
          obtain ⟨_, _, heq⟩ := h _ rfl
          cases heq
      | dictionary _ _ =>
          refine Or.inr ⟨fun h => ?_, rfl⟩
          obtain ⟨_, _, heq⟩ := h _ rfl
          cases heq

theorem listPeer_returns (peer : Data) :
    (∃ contact, listPeer env peer = .ok contact) ↔ TypedPeer env peer := by
  rw [listPeer, TypedPeer]
  simp only [Except.bind_eq_ok, Data.getAsDictionary_eq_ok]
  constructor
  · rintro ⟨contact, peerMap, ⟨p, rfl⟩, peerId, hpeerId, address, haddress, hrest⟩
    refine ⟨peerMap, p, rfl, (readPeerId_returns peerMap).mp ⟨peerId, hpeerId⟩, ?_⟩
    rcases @readIp_spec env peerMap with ⟨hfield, address', haddress', hhas⟩ | ⟨-, hthrown⟩
    · refine ⟨hfield, fun hasAddress => ?_⟩
      rw [haddress] at haddress'
      cases haddress'
      obtain ⟨⟨isV6, nAddr⟩, rfl⟩ := Option.ne_none_iff_exists'.mp (hhas.mpr hasAddress)
      obtain ⟨port, hport, -⟩ := Except.bind_eq_ok.mp hrest
      exact (readPort_returns peerMap).mp ⟨port, hport⟩
    · rw [hthrown] at haddress
      cases haddress
  · rintro ⟨peerMap, p, rfl, hpeerId, hip, hport⟩
    obtain ⟨peerId, hpeerId⟩ := (readPeerId_returns peerMap).mpr hpeerId
    rcases @readIp_spec env peerMap with ⟨-, address, haddress, hhas⟩ | ⟨hnot, -⟩
    · cases address with
      | none => exact ⟨none, peerMap, ⟨p, rfl⟩, peerId, hpeerId, none, haddress, rfl⟩
      | some found =>
          obtain ⟨isV6, nAddr⟩ := found
          obtain ⟨port, hread⟩ := (readPort_returns peerMap).mpr (hport (hhas.mp nofun))
          cases port with
          | none =>
              refine ⟨none, peerMap, ⟨p, rfl⟩, peerId, hpeerId, _, haddress, ?_⟩
              exact Except.bind_eq_ok.mpr ⟨none, hread, rfl⟩
          | some nPort =>
              refine ⟨some ⟨nAddr, nPort, isV6, peerId⟩, peerMap, ⟨p, rfl⟩, peerId, hpeerId, _, haddress, ?_⟩
              exact Except.bind_eq_ok.mpr ⟨some nPort, hread, rfl⟩
    · exact absurd hip hnot

/-- The loop gets through a list exactly if every entry is well typed, whatever the queue drops. -/
theorem pushListPeers_returns (peers : List Data) (queued : List PeerContact × Bool) :
    (∃ queued', pushListPeers env peers queued = .ok queued') ↔
      ∀ peer ∈ peers, TypedPeer env peer := by
  induction peers generalizing queued with
  | nil => exact iff_of_true ⟨queued, rfl⟩ nofun
  | cons peer peers ih =>
      rw [pushListPeers, List.forall_mem_cons, ← listPeer_returns]
      constructor
      · rintro ⟨queued', h⟩
        obtain ⟨contact, hcontact, hrest⟩ := Except.bind_eq_ok.mp h
        refine ⟨⟨contact, hcontact⟩, ?_⟩
        cases contact with
        | none => exact (ih queued).mp ⟨queued', hrest⟩
        | some contact => exact (ih (pushDiscovery queued contact)).mp ⟨queued', hrest⟩
      · rintro ⟨⟨contact, hcontact⟩, hpeers⟩
        cases contact with
        | none =>
            obtain ⟨queued', h⟩ := (ih queued).mpr hpeers
            exact ⟨queued', Except.bind_eq_ok.mpr ⟨none, hcontact, h⟩⟩
        | some contact =>
            obtain ⟨queued', h⟩ := (ih (pushDiscovery queued contact)).mpr hpeers
            exact ⟨queued', Except.bind_eq_ok.mpr ⟨some contact, hcontact, h⟩⟩

theorem pushPeers_returns (parse : Dictionary) (discoveries : List PeerContact) :
    (∃ queued, pushPeers env parse discoveries = .ok queued) ↔
      ∀ peerList p, find "peers" parse = some (.list peerList p) →
        ∀ peer ∈ peerList, TypedPeer env peer := by
  rw [pushPeers]
  cases find "peers" parse with
  | none => exact iff_of_true ⟨none, rfl⟩ fun _ _ h => by cases h
  | some peers =>
      cases peers with
      | string peerBinaries p =>
          refine iff_of_true ?_ fun _ _ h => by cases h
          dsimp only
          split <;> exact ⟨_, rfl⟩
      | integer _ _ => exact iff_of_true ⟨_, rfl⟩ fun _ _ h => by cases h
      | dictionary _ _ => exact iff_of_true ⟨_, rfl⟩ fun _ _ h => by cases h
      | list peerList p =>
          dsimp only
          constructor
          · rintro ⟨_, h⟩ peerList' p' heq
            cases heq
            obtain ⟨queued, hqueued, -⟩ := Except.bind_eq_ok.mp h
            exact (pushListPeers_returns peerList (discoveries, false)).mp ⟨queued, hqueued⟩
          · intro h
            obtain ⟨queued, hqueued⟩ :=
              (pushListPeers_returns peerList (discoveries, false)).mpr (h peerList p rfl)
            exact ⟨_, Except.bind_eq_ok.mpr ⟨queued, hqueued, rfl⟩⟩

theorem activeStateHandler_returns (parse : Dictionary) :
    (∃ result, activeStateHandler env name manager tracker parse = .ok result) ↔
      TypedResponse env parse := by
  constructor
  · rintro ⟨result, h⟩
    obtain ⟨_, _, _, _, hinterval, hmin, hid, hpush, -⟩ := activeStateHandler_reads h
    exact ⟨(readInterval_returns _ _).mp ⟨_, hinterval⟩, (readMinInterval_returns _ _).mp ⟨_, hmin⟩,
      (readTrackerId_returns _ _).mp ⟨_, hid⟩, (pushPeers_returns _ _).mp ⟨_, hpush⟩⟩
  · rintro ⟨hinterval, hmin, hid, hpeers⟩
    obtain ⟨tracker₁, h₁⟩ := (readInterval_returns parse
      ({ tracker with state := .active }).resetFailureStats).mpr hinterval
    obtain ⟨tracker₂, h₂⟩ := (readMinInterval_returns parse tracker₁).mpr hmin
    obtain ⟨tracker₃, h₃⟩ := (readTrackerId_returns parse tracker₂).mpr hid
    obtain ⟨queued, h₄⟩ := (@pushPeers_returns env parse manager.discoveries).mpr hpeers
    have hread : readResponse env parse manager.discoveries tracker = .ok (tracker₃, queued) :=
      readResponse_eq_ok.mpr ⟨tracker₁, tracker₂, h₁, h₂, h₃, h₄⟩
    simp only [activeStateHandler, Except.bind_eq_ok]
    cases queued with
    | none => exact ⟨_, _, hread, rfl⟩
    | some queued => exact ⟨_, _, hread, rfl⟩

end Tracker

/-- A tracker that has an http url gets through a response without an exception exactly if its body is
one of those that are handled. -/
theorem doOnSuccess_returns_iff {env : TrackerEnvironment} {name : ByteString}
    {manager : TrackerManager} {tracker : Tracker} {url : ByteString}
    (hurl : url ∈ tracker.announceUrl.list) (hhttp : isHttp url = true) :
    (∃ manager', manager.doOnSuccess env name tracker = .ok manager') ↔ Handled env tracker.data := by
  let online : Tracker := { tracker with context := { tracker.context with online := true } }
  obtain ⟨result, hinactive⟩ := @inactiveStateHandler_returns env name manager online url hurl hhttp
  rw [TrackerManager.doOnSuccess, Handled]
  dsimp only
  split
  · rename_i hempty
    exact iff_of_true ⟨_, Except.bind_eq_ok.mpr ⟨result, hinactive, rfl⟩⟩ (Or.inl hempty)
  · rename_i hbody
    rw [or_iff_right hbody]
    cases hinput : Decode.input tracker.data with
    | none => exact iff_of_true ⟨_, rfl⟩ (Or.inl rfl)
    | some parse =>
        rw [or_iff_right (Option.some_ne_none _)]
        cases parse with
        | integer _ _ => exact iff_of_false (by rintro ⟨_, h⟩; cases h) (by rintro ⟨_, _, h, -⟩; cases h)
        | string _ _ => exact iff_of_false (by rintro ⟨_, h⟩; cases h) (by rintro ⟨_, _, h, -⟩; cases h)
        | list _ _ => exact iff_of_false (by rintro ⟨_, h⟩; cases h) (by rintro ⟨_, _, h, -⟩; cases h)
        | dictionary parsedDict p =>
            have hdictionary : (∃ parse p', some (Data.dictionary parsedDict p) =
                some (.dictionary parse p') ∧ (contains "failure reason" parse = true ∨
                  TypedResponse env parse)) ↔
                contains "failure reason" parsedDict = true ∨ TypedResponse env parsedDict := by
              simp
            rw [hdictionary]
            simp only [Data.getAsDictionary, bind, Except.bind]
            cases hfailure : contains "failure reason" parsedDict with
            | true =>
                refine iff_of_true ?_ (Or.inl rfl)
                rw [if_pos rfl]
                exact ⟨_, Except.bind_eq_ok.mpr ⟨result, hinactive, rfl⟩⟩
            | false =>
                rw [if_neg Bool.false_ne_true, or_iff_right Bool.false_ne_true,
                  ← @activeStateHandler_returns env name manager online parsedDict]
                constructor
                · rintro ⟨manager', h⟩
                  obtain ⟨result', hactive, -⟩ := Except.bind_eq_ok.mp h
                  exact ⟨result', hactive⟩
                · rintro ⟨result', hactive⟩
                  exact ⟨_, Except.bind_eq_ok.mpr ⟨result', hactive, rfl⟩⟩

theorem doOnSuccess_returns_onePeer : (∃ manager', (announcedManager onePeer).doOnSuccess
      plainEnvironment trackerName (announcedTracker onePeer) = .ok manager') ↔
    Handled plainEnvironment (announcedTracker onePeer).data :=
  @doOnSuccess_returns_iff plainEnvironment trackerName (announcedManager onePeer)
    (announcedTracker onePeer) (.ofString "http://t/a") List.mem_cons_self rfl

/-- The response `i1e` is no dictionary, and the variant access throws. -/
theorem integer_response_thrown : ¬ ∃ manager', respond ['i', '1', 'e'] = .ok manager' := by
  rintro ⟨manager', h⟩
  have hthrown : respond ['i', '1', 'e'] = .error .badVariantAccess := rfl
  rw [hthrown] at h
  cases h

end TorrentEngine
