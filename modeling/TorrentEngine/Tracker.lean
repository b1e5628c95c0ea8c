import TorrentEngine.BencodeAccess
import TorrentEngine.BencodeDecode
import TorrentEngine.PeerContact
import TorrentEngine.SizeT

/-! `TrackerManager::Tracker`: what a tracker does with the response to an announce. A tracker is known
by the key it has in `tracker_connections`, its domain name. -/

namespace TorrentEngine

open Bencode

inductive TrackerState where
  | null
  | inactive
  | active
  deriving DecidableEq

inductive TrackerProto where
  | null
  | http
  | udp
  deriving DecidableEq

inductive TimerCount where
  | one
  | two
  deriving DecidableEq

inductive TimerName where
  | minimum
  | maximum
  deriving DecidableEq

structure EvTimer where
  active : Bool
  after : Rat

structure TrackerContext where
  online : Bool
  interruptible : Bool
  hasHttp : Bool
  failures : Nat
  managerSpaceIdx : Nat

structure TrackerTimers where
  minimumDuration : Int64
  minimum : EvTimer
  maximumDuration : Int64
  maximum : EvTimer
  type : TimerCount

structure AnnounceList where
  list : List ByteString
  domainName : ByteString
  currentIdx : Nat
  failedIdx : Nat
  justFailed : Bool

structure Tracker where
  /-- The response, `user_space.data`. -/
  data : List Byte
  trackerId : ByteString
  state : TrackerState
  currentProto : TrackerProto
  context : TrackerContext
  timers : TrackerTimers
  announceUrl : AnnounceList

structure TrackerManager where
  /-- `tracker_context.active`. -/
  active : Bool
  trackerConnections : List (ByteString × Tracker)
  managerSpace : List ByteString
  /-- What the consumer has not popped from the queue of discoveries. -/
  discoveries : List PeerContact
  consumerSignalled : Bool

/-- The tables of a tracker that are filled from outside the handlers: `inet_pton` for each address
family, on the bytes of a C string, and what is read past the end of `retry_intervals`. -/
structure TrackerEnvironment where
  inetPton4 : List Byte → Option (List Byte)
  inetPton6 : List Byte → Option (List Byte)
  beyondRetryIntervals : Nat → Int64

namespace EvTimer

/-- `arm_timer`. -/
def arm (duration : Rat) : EvTimer := ⟨true, duration⟩

/-- `ev::timer::stop`. -/
def stop (timer : EvTimer) : EvTimer := { timer with active := false }

end EvTimer

namespace Tracker

def shutdownReset (tracker : Tracker) : Tracker :=
  { tracker with
    state := .null
    currentProto := .null
    context := ⟨false, false, tracker.context.hasHttp, 0, 0⟩
    timers := ⟨0, tracker.timers.minimum.stop, 0, tracker.timers.maximum.stop, .one⟩
    announceUrl :=
      { tracker.announceUrl with failedIdx := 0, currentIdx := 0, justFailed := false } }

def isHttp (url : ByteString) : Bool := (ByteString.ofString "http").bytes.isPrefixOf url.bytes

/-- Whether the failed url was reached again, and the tracker at the next url. -/
def seekToNextUrl (tracker : Tracker) : Except Fault (Bool × Tracker) :=
  let next := tracker.announceUrl.currentIdx + 1
  let currentIdx := if next ≥ tracker.announceUrl.list.length then 0 else next
  match tracker.announceUrl.list[currentIdx]? with
  | none => .error .undefined
  | some url =>
      .ok (tracker.announceUrl.failedIdx = currentIdx,
        { tracker with
          announceUrl := { tracker.announceUrl with currentIdx }
          currentProto := if isHttp url then .http else .udp })

/-- The `do while` loop that seeks an http url. In as many turns as there are urls each has been met, so
that a loop that goes on has none to find. -/
def seekHttpUrl : Nat → Tracker → Except Fault (Bool × Tracker)
  | 0, _ => .error .undefined
  | turns + 1, tracker => do
      let (exhausted, tracker) ← seekToNextUrl tracker
      if tracker.currentProto = .http then pure (exhausted, tracker) else seekHttpUrl turns tracker

def retryIntervals : List Int64 := [10, 30, 5 * 60, 15 * 60, 45 * 60]

/-- The index that `get_retry_seconds` uses, after so many failures. The code writes `failures - 1 % 5`, where
`1 % 5` is one. -/
def retryRead (failures : Nat) : Option Nat := if failures = 0 then none else some (failures - 1 % 5)

/-- What `get_retry_seconds` returns, after so many failures. -/
def retryDelay (env : TrackerEnvironment) (failures : Nat) : Int64 :=
  match retryRead failures with
  | none => 0
  | some index => (retryIntervals[index]?).getD (env.beyondRetryIntervals index)

def getRetrySeconds (env : TrackerEnvironment) (tracker : Tracker) : Int64 :=
  retryDelay env tracker.context.failures

/-! ### The fields of a response -/

def resetFailureStats (tracker : Tracker) : Tracker :=
  { tracker with
    context := { tracker.context with failures := 0 }
    announceUrl := { tracker.announceUrl with failedIdx := 2 ^ 64 - 1, justFailed := false } }

/-- A field of a response, taken over where it is present. -/
def readField {α : Type} (key : String) (getAs : Data → Except Fault α)
    (update : α → Tracker → Tracker) (parse : Dictionary) (tracker : Tracker) :
    Except Fault Tracker :=
  match find key parse with
  | none => .ok tracker
  | some found => do
      let value ← getAs found
      pure (update value tracker)

def setMaximumDuration (duration : Int64) (tracker : Tracker) : Tracker :=
  let maximumDuration := if duration ≤ 0 then 1800 else duration
  { tracker with timers := { tracker.timers with maximumDuration } }

def setMinimumDuration (minimumDuration : Int64) (tracker : Tracker) : Tracker :=
  let type := if minimumDuration > 0 then .two else tracker.timers.type
  { tracker with timers := { tracker.timers with minimumDuration, type } }

def readInterval (parse : Dictionary) (tracker : Tracker) : Except Fault Tracker :=
  readField "interval" Data.getAsInteger setMaximumDuration parse
    { tracker with timers := { tracker.timers with type := .one } }

def readMinInterval : Dictionary → Tracker → Except Fault Tracker :=
  readField "min interval" Data.getAsInteger setMinimumDuration

def readTrackerId : Dictionary → Tracker → Except Fault Tracker :=
  readField "tracker id" Data.getAsString fun trackerId tracker => { tracker with trackerId }

/-! ### The peers of a response -/

def peer4UnitLength : Nat := 6

def maxPort : Int64 := 65535

/-- The endpoints of a compact list: four bytes of address and two of port each. -/
def compactPeers : List Byte → List PeerContact
  | a :: b :: c :: d :: hi :: lo :: rest =>
      { PeerContact.fresh with
        nAddr := PeerContact.copyInto PeerContact.fresh.nAddr [a, b, c, d], nPort := (hi, lo) } ::
        compactPeers rest
  | _ => []

/-- The peer id of an entry, kept when it has the right length. -/
def readPeerId (peerMap : Dictionary) : Except Fault (Option (Vector Byte 20)) :=
  match find "peer id" peerMap with
  | none => .ok none
  | some found => do
      let peerId ← found.getAsString
      pure (if peerId.size = 20 then some (PeerContact.copyInto (.replicate 20 0) peerId.bytes)
        else none)

/-- The address of an entry with its family, or `none` where the entry is skipped. -/
def readIp (env : TrackerEnvironment) (peerMap : Dictionary) :
    Except Fault (Option (Bool × Vector Byte 16)) :=
  match find "ip" peerMap with
  | none => .ok none
  | some found => do
      let peerAddr ← found.getAsString
      let cStr := peerAddr.bytes.takeWhile (· ≠ 0)
      match env.inetPton4 cStr with
      | some bytes => pure (some (false, PeerContact.copyInto PeerContact.fresh.nAddr bytes))
      | none =>
          match env.inetPton6 cStr with
          | some bytes => pure (some (true, PeerContact.copyInto PeerContact.fresh.nAddr bytes))
          | none => pure none

/-- The port of an entry, or `none` where the entry is skipped. -/
def readPort (peerMap : Dictionary) : Except Fault (Option (Byte × Byte)) :=
  match find "port" peerMap with
  | none => .ok none
  | some found => do
      let peerPort ← found.getAsInteger
      pure (if peerPort < 1 ∨ peerPort > maxPort then none
        else some (PeerContact.htons peerPort.toInt.toNat))

/-- One entry of a list of peers, or `none` where it is skipped. -/
def listPeer (env : TrackerEnvironment) (peer : Data) : Except Fault (Option PeerContact) := do
  let peerMap ← peer.getAsDictionary
  let peerId ← readPeerId peerMap
  match ← readIp env peerMap with
  | none => pure none
  | some (isV6, nAddr) =>
      match ← readPort peerMap with
      | none => pure none
      | some nPort => pure (some ⟨nAddr, nPort, isV6, peerId⟩)

def discoveriesCapacity : Nat := 100

/-- `manager.discoveries.queue.push`, which drops the endpoint when the queue is full, and whether the
consumer is to be notified. -/
def pushDiscovery (queued : List PeerContact × Bool) (contact : PeerContact) :
    List PeerContact × Bool :=
  if queued.1.length < discoveriesCapacity then (queued.1 ++ [contact], true) else queued

/-- The `for` loop over a list of peers. -/
def pushListPeers (env : TrackerEnvironment) :
    List Data → List PeerContact × Bool → Except Fault (List PeerContact × Bool)
  | [], queued => .ok queued
  | peer :: peers, queued => do
      match ← listPeer env peer with
      | none => pushListPeers env peers queued
      | some contact => pushListPeers env peers (pushDiscovery queued contact)

/-- The queue of discoveries after the peers of a response, or `none` where the handler returns. -/
def pushPeers (env : TrackerEnvironment) (parse : Dictionary) (discoveries : List PeerContact) :
    Except Fault (Option (List PeerContact × Bool)) :=
  match find "peers" parse with
  | none => .ok none
  | some (.string peerBinaries _) =>
      if peerBinaries.bytes = [] ∨ peerBinaries.size % peer4UnitLength ≠ 0 then .ok none
      else .ok (some ((compactPeers peerBinaries.bytes).foldl pushDiscovery (discoveries, false)))
  | some (.list peerList _) => do
      let queued ← pushListPeers env peerList (discoveries, false)
      pure (some queued)
  | some _ => .ok (some (discoveries, false))

/-! ### The handlers -/

/-- `return_to_manager_space`, of the tracker known as `this`. -/
def returnToManagerSpace (this : ByteString) (manager : TrackerManager) (tracker : Tracker) :
    TrackerManager × Tracker :=
  ({ manager with managerSpace := manager.managerSpace ++ [this] },
    { tracker with
      context := { tracker.context with managerSpaceIdx := manager.managerSpace.length } })

/-- How both handlers end. -/
def finish (this : ByteString) (manager : TrackerManager) (tracker : Tracker) :
    TrackerManager × Tracker :=
  if manager.active then returnToManagerSpace this manager tracker
  else (manager, tracker.shutdownReset)

def timer (tracker : Tracker) : TimerName → EvTimer
  | .minimum => tracker.timers.minimum
  | .maximum => tracker.timers.maximum

/-- `arm_timer`, of this timer of a tracker. -/
def armTimer (tracker : Tracker) (which : TimerName) (duration : Int64) : Tracker :=
  match which with
  | .minimum => { tracker with timers := { tracker.timers with minimum := EvTimer.arm duration.toInt } }
  | .maximum => { tracker with timers := { tracker.timers with maximum := EvTimer.arm duration.toInt } }

/-- The timers that `active_state_handler` arms, and for how many seconds. -/
def timersToArm (tracker : Tracker) : List (TimerName × Int64) :=
  (.maximum, tracker.timers.maximumDuration) ::
    if tracker.timers.type = .two then [(.minimum, tracker.timers.minimumDuration)] else []

def armTimers (tracker : Tracker) : Tracker :=
  let armed := tracker.timersToArm.foldl (fun armed arming => armed.armTimer arming.1 arming.2) tracker
  if tracker.timers.type = .two then
    { armed with context := { armed.context with interruptible := false } }
  else armed

theorem armTimers_eq (tracker : Tracker) : tracker.armTimers =
    if tracker.timers.type = .two then
      { tracker with
        timers := { tracker.timers with
          maximum := EvTimer.arm tracker.timers.maximumDuration.toInt
          minimum := EvTimer.arm tracker.timers.minimumDuration.toInt }
        context := { tracker.context with interruptible := false } }
    else
      { tracker with timers := { tracker.timers with
        maximum := EvTimer.arm tracker.timers.maximumDuration.toInt } } := by
  rw [armTimers, timersToArm]
  split
  · rfl
  · rfl

/-- What `active_state_handler` takes over from a response: the tracker with its fields, and the queue of
discoveries with its peers. -/
def readResponse (env : TrackerEnvironment) (parse : Dictionary) (discoveries : List PeerContact)
    (tracker : Tracker) : Except Fault (Tracker × Option (List PeerContact × Bool)) := do
  let tracker := { tracker with state := .active }.resetFailureStats
  let tracker ← readInterval parse tracker
  let tracker ← readMinInterval parse tracker
  let tracker ← readTrackerId parse tracker
  let queued ← pushPeers env parse discoveries
  pure (tracker, queued)

theorem readResponse_eq_ok {env : TrackerEnvironment} {parse : Dictionary} {discoveries : List PeerContact}
    {tracker tracker' : Tracker} {queued : Option (List PeerContact × Bool)} :
    readResponse env parse discoveries tracker = .ok (tracker', queued) ↔
      ∃ tracker₁ tracker₂,
        readInterval parse { tracker with state := .active }.resetFailureStats = .ok tracker₁ ∧
        readMinInterval parse tracker₁ = .ok tracker₂ ∧ readTrackerId parse tracker₂ = .ok tracker' ∧
        pushPeers env parse discoveries = .ok queued := by
  constructor
  · intro h
    obtain ⟨tracker₁, hinterval, h₁⟩ := Except.bind_eq_ok.mp h
    obtain ⟨tracker₂, hmin, h₂⟩ := Except.bind_eq_ok.mp h₁
    obtain ⟨tracker₃, hid, h₃⟩ := Except.bind_eq_ok.mp h₂
    obtain ⟨queued', hpush, h₄⟩ := Except.bind_eq_ok.mp h₃
    cases h₄
    exact ⟨tracker₁, tracker₂, hinterval, hmin, hid, hpush⟩
  · rintro ⟨tracker₁, tracker₂, hinterval, hmin, hid, hpush⟩
    exact Except.bind_eq_ok.mpr ⟨tracker₁, hinterval, Except.bind_eq_ok.mpr ⟨tracker₂, hmin,
      Except.bind_eq_ok.mpr ⟨tracker', hid, Except.bind_eq_ok.mpr ⟨queued, hpush, rfl⟩⟩⟩⟩

def activeStateHandler (env : TrackerEnvironment) (this : ByteString) (manager : TrackerManager)
    (tracker : Tracker) (parse : Dictionary) : Except Fault (TrackerManager × Tracker) := do
  let (tracker, queued) ← readResponse env parse manager.discoveries tracker
  match queued with
  | none => pure (manager, tracker)
  | some (discoveries, notifyConsumer) =>
      let consumerSignalled := notifyConsumer || manager.consumerSignalled
      pure (finish this { manager with discoveries, consumerSignalled } tracker.armTimers)

def retryForNewUrl : Int64 := 5

/-- The url that failed first is remembered until one works. -/
def noteFailedUrl (tracker : Tracker) : Tracker :=
  if tracker.announceUrl.justFailed then tracker
  else { tracker with announceUrl := { tracker.announceUrl with
    failedIdx := tracker.announceUrl.currentIdx, justFailed := true } }

/-- Whether every url has failed, and the tracker at its next http url with the timer armed. -/
def failAnnounce (env : TrackerEnvironment) (tracker : Tracker) : Except Fault (Bool × Tracker) := do
  let tracker := noteFailedUrl
    { tracker with state := .inactive, timers := { tracker.timers with type := .one } }
  let (urlCycleExhausted, tracker) ← seekHttpUrl tracker.announceUrl.list.length tracker
  let tracker := if urlCycleExhausted then
      { tracker with context := { tracker.context with failures := SizeT.inc tracker.context.failures } }
    else tracker
  let maximumDuration := if urlCycleExhausted then getRetrySeconds env tracker else retryForNewUrl
  let timers := { tracker.timers with
    maximumDuration, maximum := EvTimer.arm maximumDuration.toInt }
  pure (urlCycleExhausted, { tracker with timers })

def inactiveStateHandler (env : TrackerEnvironment) (this : ByteString) (manager : TrackerManager)
    (tracker : Tracker) : Except Fault (TrackerManager × Tracker) := do
  let (_, tracker) ← failAnnounce env tracker
  pure (finish this manager tracker)

end Tracker

namespace TrackerManager

open Tracker

def find (manager : TrackerManager) (name : ByteString) : Option Tracker :=
  manager.trackerConnections.lookup name

/-- The tracker written back under its key. -/
def store (manager : TrackerManager) (name : ByteString) (tracker : Tracker) : TrackerManager :=
  { manager with trackerConnections := manager.trackerConnections.map fun entry =>
      if entry.1 = name then (name, tracker) else entry }

/-- `tracker_connections.erase`. -/
def erase (manager : TrackerManager) (name : ByteString) : TrackerManager :=
  { manager with trackerConnections := manager.trackerConnections.filter fun entry =>
      entry.1 ≠ name }

/-- `Tracker::do_on_success` of the tracker `this`. -/
def doOnSuccess (env : TrackerEnvironment) (this : ByteString) (manager : TrackerManager)
    (tracker : Tracker) : Except Fault TrackerManager := do
  let tracker := { tracker with context := { tracker.context with online := true } }
  if tracker.data = [] then
    let (manager, tracker) ← inactiveStateHandler env this manager tracker
    pure (manager.store this tracker)
  else
    match Decode.input tracker.data with
    | none => pure (manager.erase tracker.announceUrl.domainName)
    | some parse =>
        let parsedDict ← parse.getAsDictionary
        if contains "failure reason" parsedDict then
          let (manager, tracker) ← inactiveStateHandler env this manager tracker
          pure (manager.store this tracker)
        else
          let (manager, tracker) ← activeStateHandler env this manager tracker parsedDict
          pure (manager.store this tracker)

/-- `Tracker::do_on_failure` of the tracker `this`. -/
def doOnFailure (env : TrackerEnvironment) (this : ByteString) (manager : TrackerManager)
    (tracker : Tracker) : Except Fault TrackerManager := do
  let tracker := { tracker with context := { tracker.context with online := false } }
  let (manager, tracker) ← inactiveStateHandler env this manager tracker
  pure (manager.store this tracker)

end TrackerManager

end TorrentEngine
