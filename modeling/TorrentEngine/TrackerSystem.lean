import TorrentEngine.Library.SwapRemoval
import TorrentEngine.TrackerEvents
import TorrentEngine.TrackerResponse

/-! The tracker manager as one system: the trackers with their two timers, the requests that are with the
HTTP handler, and the handlers of the event system. Everything but the calls from other threads happens in
callbacks of one loop. The urls of the requests are left out. -/

open Transition SwapRemoval

namespace TorrentEngine

open Bencode Tracker

/-- The two assertions of `start_event`, and what the handlers are expected to find otherwise. -/
inductive TrackerCheck where
  | startState
  | startTimers
  /-- `populate_manager_space` adds a tracker whose request is done. -/
  | startOutstanding
  /-- `send_to_protocol_space` removes a tracker that is in the manager space. -/
  | handOver
  /-- `reannounce_event` announces to a tracker after the time it asked to be left alone. -/
  | minimumElapsed
  deriving DecidableEq

def TimerName.other : TimerName → TimerName
  | .minimum => .maximum
  | .maximum => .minimum

/-! ### Trackers -/

namespace EvTimer

/-- The timer after some time. -/
def elapse (time : Rat) (timer : EvTimer) : EvTimer :=
  if timer.active then { timer with after := timer.after - time } else timer

end EvTimer

namespace Tracker

/-- As `try_emplace` makes it, under its key. -/
def fresh (key : ByteString) : Tracker where
  data := []
  trackerId := .empty
  state := .null
  currentProto := .null
  context := ⟨false, false, false, 0, 0⟩
  timers := ⟨0, ⟨false, 0⟩, 0, ⟨false, 0⟩, .one⟩
  announceUrl := ⟨[], key, 0, 0, false⟩

/-- `disarm_timer`. -/
def disarm (which : TimerName) (tracker : Tracker) : Tracker :=
  match which with
  | .minimum => { tracker with timers := { tracker.timers with minimum := tracker.timers.minimum.stop } }
  | .maximum => { tracker with timers := { tracker.timers with maximum := tracker.timers.maximum.stop } }

def elapse (time : Rat) (tracker : Tracker) : Tracker :=
  { tracker with timers := { tracker.timers with
    minimum := tracker.timers.minimum.elapse time, maximum := tracker.timers.maximum.elapse time } }

def setInterruptible (tracker : Tracker) : Tracker :=
  { tracker with context := { tracker.context with interruptible := true } }

def setManagerSpaceIdx (managerSpaceIdx : Nat) (tracker : Tracker) : Tracker :=
  { tracker with context := { tracker.context with managerSpaceIdx } }

/-- `user_space.data.clear()`. -/
def clearData (tracker : Tracker) : Tracker := { tracker with data := [] }

/-- The `while` loop of `populate_manager_space`, or `none` where it does not end. -/
def seekHttp (tracker : Tracker) : Option Tracker :=
  if tracker.currentProto = .http then some tracker
  else
    match seekHttpUrl tracker.announceUrl.list.length tracker with
    | .ok (_, tracker) => some tracker
    | .error _ => none

/-- What `start_event` does to a tracker in the manager space. -/
def start (tracker : Tracker) : Tracker :=
  { tracker with
    state := .inactive, timers := { tracker.timers with maximum := EvTimer.arm (1 / 10) } }

/-- The test of `reannounce_event`. -/
def Reannounced (tracker : Tracker) : Prop :=
  tracker.timers.type = .two ∧ tracker.context.interruptible ∧ tracker.state = .active

instance (tracker : Tracker) : Decidable tracker.Reannounced := by
  unfold Reannounced
  infer_instance

/-- The test of `tracker_timeout_handler` for the end of the minimum interval. -/
def Waiting (tracker : Tracker) : Prop :=
  tracker.timers.type = .two ∧ tracker.context.interruptible = false

instance (tracker : Tracker) : Decidable tracker.Waiting := by
  unfold Waiting
  infer_instance

end Tracker

/-! ### The urls of a torrent file -/

/-- Where a pattern first occurs. -/
def findPattern (pattern : List Byte) : List Byte → Option Nat
  | [] => if pattern = [] then some 0 else none
  | b :: bytes =>
      if pattern.isPrefixOf (b :: bytes) then some 0 else (findPattern pattern bytes).map (· + 1)

/-- Where a byte last occurs. -/
def findLastOf (b : Byte) (bytes : List Byte) : Option Nat :=
  (bytes.reverse.findIdx? (· = b)).map fun fromEnd => bytes.length - 1 - fromEnd

/-- A position as a `size_t`, with `npos` where there is none. -/
def positionOrNpos : Option Nat → Nat
  | none => 2 ^ 64 - 1
  | some position => position

/-- `std::string_view::substr`, or `none` where it throws. -/
def substr (s : ByteString) (pos count : Nat) : Option ByteString :=
  if s.size < pos then none
  else some ⟨(s.bytes.drop pos).take count, by
    have hlt := s.size_lt
    rw [List.length_take, List.length_drop]
    omega⟩

/-- `int hostname_start_index`. -/
def hostnameStartIndex (url : ByteString) : Int :=
  SizeT.toInt32 (SizeT.add (positionOrNpos (findPattern [ascii ':', ascii '/', ascii '/'] url.bytes)) 3)

/-- `int port_character_index`, and the index of the last slash. -/
def lastIndexOf (b : Byte) (url : ByteString) : Int :=
  SizeT.toInt32 (positionOrNpos (findLastOf b url.bytes))

/-- `int hostname_end_index`. -/
def hostnameEndIndex (url : ByteString) : Int :=
  if lastIndexOf (ascii ':') url < hostnameStartIndex url then lastIndexOf (ascii '/') url
  else lastIndexOf (ascii ':') url

/-- `get_hostname`, or `none` where `substr` throws or the difference is not an `int`. A negative one is
converted to a huge count, which takes the rest. -/
def getHostname (url : ByteString) : Option ByteString :=
  let count := hostnameEndIndex url - hostnameStartIndex url
  if count < -2 ^ 31 ∨ 2 ^ 31 ≤ count then none
  else substr url (SizeT.ofInt (hostnameStartIndex url)) (SizeT.ofInt count)

namespace TrackerManager

/-- The tracker with this name changed in its place. -/
def change (manager : TrackerManager) (name : ByteString) (f : Tracker → Tracker) : TrackerManager :=
  match manager.find name with
  | none => manager
  | some tracker => manager.store name (f tracker)

/-- What `initiatlize_trackers` does to the tracker of a url. -/
def noteUrl (url : ByteString) (tracker : Tracker) : Tracker :=
  { tracker with
    context := { tracker.context with hasHttp := tracker.context.hasHttp || isHttp url }
    announceUrl := { tracker.announceUrl with
      list := if url ∈ tracker.announceUrl.list then tracker.announceUrl.list
        else tracker.announceUrl.list ++ [url] } }

/-- One turn of `initiatlize_trackers`. -/
def initiatlizeTracker (manager : TrackerManager) (url : ByteString) : Option TrackerManager := do
  let key ← getHostname url
  let entries := manager.trackerConnections
  let trackerConnections := if (entries.lookup key).isSome then entries
    else entries ++ [(key, Tracker.fresh key)]
  some (change { manager with trackerConnections } key (noteUrl url))

def initiatlizeTrackers (urls : List ByteString) : Option TrackerManager :=
  urls.foldlM initiatlizeTracker ⟨false, [], [], [], false⟩

end TrackerManager

/-! ### The manager and its surroundings -/

/-- The manager with the requests at the HTTP handler and the time of its loop. The last two fields are
kept for the proofs. -/
structure TrackerWorld where
  manager : TrackerManager
  events : EventSystem
  /-- The trackers whose easy handles are in the multi handle. -/
  requests : List ByteString
  clock : Rat
  /-- Until when a tracker asked, by a minimum interval, not to be announced to again. -/
  askedUntil : ByteString → Rat
  failedChecks : List TrackerCheck

inductive TrackerEvent where
  /-- A step of a call or of `handle_event`. -/
  | signal (e : SignalEvent)
  | timerExpires (name : ByteString) (which : TimerName)
  /-- The HTTP handler is done with a request. A success has a body. After the callback `chk_finished` clears
  the data of the response. -/
  | finished (name : ByteString) (body : Option (List Byte))
  | elapse (time : Rat)
  /-- The consumer takes discoveries from the queue. -/
  | consume (count : Nat)
  deriving DecidableEq

/-- The time that passes. -/
def TrackerEvent.time : TrackerEvent → Rat
  | .elapse time => time
  | _ => 0

/-- A positive number of seconds that a response gives under this key. -/
def durationIn (key : String) (body : List Byte) : Option Int64 :=
  match Decode.input body with
  | some (.dictionary parse _) =>
      match Bencode.find key parse with
      | some (.integer duration _) => if 0 < duration then some duration else none
      | _ => none
  | _ => none

/-- The minimum interval that a response asks for. -/
def minInterval (body : List Byte) : Option Int64 := durationIn "min interval" body

namespace TrackerWorld

/-- The event system with the flag of the manager. -/
def loop (w : TrackerWorld) : EventLoop := { w.events with active := w.manager.active }

def find (w : TrackerWorld) (name : ByteString) : Option Tracker := w.manager.find name

/-- `manager_space`. -/
def space (w : TrackerWorld) : List ByteString := w.manager.managerSpace

def change (w : TrackerWorld) (name : ByteString) (f : Tracker → Tracker) : TrackerWorld :=
  { w with manager := w.manager.change name f }

def check (w : TrackerWorld) (c : TrackerCheck) (expected : Prop) [Decidable expected] : TrackerWorld :=
  if expected then w else { w with failedChecks := c :: w.failedChecks }

/-! ### Between the manager space and the HTTP handler -/

/-- `send_to_protocol_space`. What it does to an empty vector is undefined and left out. -/
def sendToProtocolSpace (w : TrackerWorld) (this : ByteString) : TrackerWorld :=
  let w := w.check .handOver (this ∈ w.space ∧ this ∉ w.requests)
  match w.space.getLast?, w.find this with
  | some last, some tracker =>
      let idx := tracker.context.managerSpaceIdx
      let w := w.change last (setManagerSpaceIdx idx)
      { w with manager := { w.manager with managerSpace := removeAt w.space idx } }
  | _, _ => w

/-- `protocol.add_request`. A handle that is in the multi handle is not added again. -/
def addRequest (w : TrackerWorld) (this : ByteString) : TrackerWorld :=
  match w.find this with
  | some tracker =>
      if tracker.currentProto = .http ∧ this ∉ w.requests then
        { w with requests := w.requests ++ [this] }
      else w
  | none => w

/-- `tracker_timeout_handler`. Both timers call it. -/
def trackerTimeoutHandler (w : TrackerWorld) (name : ByteString) (which : TimerName) : TrackerWorld :=
  let w := w.change name (disarm which)
  match w.find name with
  | none => w
  | some tracker =>
      if tracker.Waiting then w.change name setInterruptible
      else (w.sendToProtocolSpace name).addRequest name

/-! ### The handlers of the event system -/

/-- One turn of `populate_manager_space`, or `none` where its `while` loop does not end. -/
def addTracker (w : TrackerWorld) (entry : ByteString × Tracker) : Option TrackerWorld :=
  if entry.2.context.hasHttp then
    entry.2.seekHttp.map fun tracker =>
      let w := w.check .startOutstanding (entry.1 ∉ w.requests)
      let (manager, tracker) := returnToManagerSpace entry.1 w.manager tracker
      { w with manager := manager.store entry.1 tracker }
  else some w

def populateManagerSpace (w : TrackerWorld) : Option TrackerWorld :=
  w.manager.trackerConnections.foldlM addTracker w

/-- One turn of the loop of `start_event`. -/
def startTracker (w : TrackerWorld) (name : ByteString) : TrackerWorld :=
  match w.find name with
  | none => w
  | some tracker =>
      let w := w.check .startState (tracker.state = .null)
      let w := w.check .startTimers (tracker.timers.type = .one)
      w.change name Tracker.start

def startEvent (w : TrackerWorld) : Option TrackerWorld :=
  w.populateManagerSpace.map fun w => w.space.foldl startTracker w

/-- A range loop over the manager space from cell `i` on. Its end is fixed at the start, and it reads the
cells of the vector, those past the present end too. -/
def sweep (body : TrackerWorld → ByteString → TrackerWorld) :
    (turns i : Nat) → (cells : List ByteString) → TrackerWorld → TrackerWorld
  | 0, _, _, w => w
  | turns + 1, i, cells, w =>
      let w := match cells[i]? with
        | none => w
        | some name => body w name
      sweep body turns (i + 1) (cellsAfter w.space cells) w

def overManagerSpace (body : TrackerWorld → ByteString → TrackerWorld) (w : TrackerWorld) :
    TrackerWorld :=
  sweep body w.space.length 0 w.space w

/-- One turn of `reannounce_event`. -/
def reannounceTracker (w : TrackerWorld) (name : ByteString) : TrackerWorld :=
  match w.find name with
  | none => w
  | some tracker =>
      if tracker.Reannounced then
        let w := w.check .minimumElapsed (w.askedUntil name ≤ w.clock)
        ((w.change name (disarm .maximum)).sendToProtocolSpace name).addRequest name
      else w

/-- One turn of `force_reannounce_event`. -/
def forceReannounceTracker (w : TrackerWorld) (name : ByteString) : TrackerWorld :=
  match w.find name with
  | none => w
  | some tracker =>
      if tracker.state = .active then
        let w := (w.change name (disarm .minimum)).change name (disarm .maximum)
        (w.sendToProtocolSpace name).addRequest name
      else w

/-- One turn of `shutdown_event`. -/
def shutdownTracker (w : TrackerWorld) (name : ByteString) : TrackerWorld :=
  match w.find name with
  | none => w
  | some tracker =>
      let w := (w.change name (disarm .maximum)).sendToProtocolSpace name
      if tracker.state = .inactive then w
      else
        let w := if tracker.timers.type = .two then w.change name (disarm .minimum) else w
        w.addRequest name

def handle (w : TrackerWorld) : Call → Option TrackerWorld
  | .start => w.startEvent
  | .reannounce => some (w.overManagerSpace reannounceTracker)
  | .forceReannounce => some (w.overManagerSpace forceReannounceTracker)
  | .shutdown => some (w.overManagerSpace shutdownTracker)

/-- The call whose handler runs in this step of `handle_event`. -/
def running (w : TrackerWorld) : TrackerEvent → Option Call
  | .signal .test =>
      match w.events.invocation with
      | .handling (call :: _) event _ => if call.runs event w.manager.active then some call else none
      | _ => none
  | _ => none

def runHandler (w : TrackerWorld) (e : TrackerEvent) : Option TrackerWorld :=
  match w.running e with
  | none => some w
  | some call => w.handle call

/-! ### Steps -/

/-- The callback of the tracker's request, with what the request received. -/
def respond (env : TrackerEnvironment) (w : TrackerWorld) (name : ByteString) (tracker : Tracker) :
    Option (List Byte) → Except Fault TrackerManager
  | some data => w.manager.doOnSuccess env name { tracker with data }
  | none => w.manager.doOnFailure env name tracker

/-- The times asked for, after this event. -/
def askedAfter (w : TrackerWorld) : TrackerEvent → ByteString → Rat
  | .finished name (some body) =>
      match minInterval body with
      | some duration =>
          fun n => if n = name then w.clock + duration.toInt else w.askedUntil n
      | none => w.askedUntil
  | _ => w.askedUntil

/-- Whether the timer is the next of its tracker to expire, and has. -/
def Expires (tracker : Tracker) (which : TimerName) : Prop :=
  (tracker.timer which).active ∧ (tracker.timer which).after ≤ 0 ∧
    ((tracker.timer which.other).active → (tracker.timer which).after ≤ (tracker.timer which.other).after)

instance (tracker : Tracker) (which : TimerName) : Decidable (Expires tracker which) := by
  unfold Expires
  infer_instance

def step (env : TrackerEnvironment) (w : TrackerWorld) : TrackerEvent → Option TrackerWorld
  | .signal e => do
      let loop ← w.loop.step e
      let w ← w.runHandler (.signal e)
      some { w with events := loop.toEventSystem, manager := { w.manager with active := loop.active } }
  | .timerExpires name which => do
      let tracker ← w.find name
      if w.events.invocation = .idle ∧ Expires tracker which then
        some (w.trackerTimeoutHandler name which)
      else none
  | .finished name body => do
      let tracker ← w.find name
      if w.events.invocation = .idle ∧ name ∈ w.requests then
        let manager ← (w.respond env name tracker body).toOption
        some { w with
          manager := manager.change name clearData, requests := w.requests.filter (· ≠ name)
          askedUntil := w.askedAfter (.finished name body) }
      else none
  | .elapse time =>
      if w.events.invocation = .idle ∧ 0 ≤ time then
        let trackerConnections := w.manager.trackerConnections.map fun entry =>
          (entry.1, entry.2.elapse time)
        some { w with
          manager := { w.manager with trackerConnections }, clock := w.clock + time }
      else none
  | .consume count =>
      let discoveries := w.manager.discoveries.drop count
      some { w with manager := { w.manager with discoveries, consumerSignalled := false } }

def initial (manager : TrackerManager) : TrackerWorld :=
  ⟨manager, EventLoop.initial.toEventSystem, [], 0, fun _ => 0, []⟩

end TrackerWorld

/-- A manager for the urls of a torrent file, whose map iterates in some order. -/
def trackerMachine (env : TrackerEnvironment) : Machine TrackerWorld TrackerEvent where
  Init w := ∃ urls manager trackerConnections,
    TrackerManager.initiatlizeTrackers urls = some manager ∧
      trackerConnections.Perm manager.trackerConnections ∧
        w = .initial { manager with trackerConnections }
  Step w e w' := w.step env e = some w'

end TorrentEngine
