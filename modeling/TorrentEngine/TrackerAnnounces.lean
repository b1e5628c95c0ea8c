import TorrentEngine.AnnounceUrl
import TorrentEngine.TorrentChecks
import TorrentEngine.TrackerAttempts

/-! What the announces of a run say. Before a request is made the manager writes the url of the announce, with
the totals that `update_context` has left, and with an event for half a minute after a start. The handlers are
those of the tracker manager again, with the url that each of them writes. -/

open Transition

namespace TorrentEngine

open Bencode Tracker QueryString

/-- The tracker manager with what its requests say. -/
structure Announcer where
  world : TrackerWorld
  /-- `tracker_context`. -/
  context : ManagerContext
  /-- `started_tp`. -/
  startedTp : Rat
  /-- `user_space.url` of each tracker. -/
  urls : ByteString → List Byte
  /-- The requests that were made, each with its url. They are kept for the proofs. -/
  announced : List (ByteString × List Byte)

inductive AnnouncerEvent where
  | trackers (e : TrackerEvent)
  | updateContext (dwn upd : Nat)
  deriving DecidableEq

/-- `tracker_context.event`. Nothing assigns it. -/
def contextEvent : AnnounceEvent := .update

/-- `startup_window`, in seconds. -/
def startupWindow : Rat := 30

namespace Announcer

def onWorld (a : Announcer) (f : TrackerWorld → TrackerWorld) : Announcer := { a with world := f a.world }

/-- `set_announce_url_for_tracker`. An index past the end of the list is undefined, and left out. -/
def setAnnounceUrl (a : Announcer) (name : ByteString) (event : AnnounceEvent) : Announcer :=
  match (a.world.find name).bind fun tracker => a.context.announceUrl tracker event with
  | none => a
  | some url => { a with urls := Function.update a.urls name url }

/-- `protocol.add_request`. The url is copied when the request is made. -/
def addRequest (a : Announcer) (name : ByteString) : Announcer :=
  let world := a.world.addRequest name
  let announced := if name ∈ world.requests ∧ name ∉ a.world.requests then a.announced ++ [(name, a.urls name)]
    else a.announced
  { a with world, announced }

/-- How an announce begins: with its url, and with the tracker on its way to the HTTP handler. -/
def announce (a : Announcer) (name : ByteString) (event : AnnounceEvent) : Announcer :=
  ((a.setAnnounceUrl name event).onWorld (·.sendToProtocolSpace name)).addRequest name

/-- The event of an announce that a timer brings about. -/
def timeoutEvent (a : Announcer) : AnnounceEvent :=
  if a.world.clock - a.startedTp < startupWindow then .started else contextEvent

def trackerTimeoutHandler (a : Announcer) (name : ByteString) (which : TimerName) : Announcer :=
  let a := a.onWorld (·.change name (disarm which))
  match a.world.find name with
  | none => a
  | some tracker =>
      if tracker.Waiting then a.onWorld (·.change name setInterruptible)
      else a.announce name a.timeoutEvent

def startEvent (a : Announcer) : Option Announcer :=
  a.world.startEvent.map fun world => { a with world, startedTp := world.clock }

/-- A range loop over the manager space. -/
def sweep (body : Announcer → ByteString → Announcer) :
    (turns i : Nat) → (cells : List ByteString) → Announcer → Announcer
  | 0, _, _, a => a
  | turns + 1, i, cells, a =>
      let a := match cells[i]? with
        | none => a
        | some name => body a name
      sweep body turns (i + 1) (SwapRemoval.cellsAfter a.world.space cells) a

def overManagerSpace (body : Announcer → ByteString → Announcer) (a : Announcer) : Announcer :=
  sweep body a.world.space.length 0 a.world.space a

/-- One turn of `reannounce_event`. -/
def reannounceTracker (a : Announcer) (name : ByteString) : Announcer :=
  match a.world.find name with
  | none => a
  | some tracker =>
      if tracker.Reannounced then
        let a := a.onWorld fun w =>
          (w.check .minimumElapsed (w.askedUntil name ≤ w.clock)).change name (disarm .maximum)
        a.announce name contextEvent
      else a

/-- One turn of `force_reannounce_event`. -/
def forceReannounceTracker (a : Announcer) (name : ByteString) : Announcer :=
  match a.world.find name with
  | none => a
  | some tracker =>
      if tracker.state = .active then
        let a := a.onWorld fun w => (w.change name (disarm .minimum)).change name (disarm .maximum)
        a.announce name contextEvent
      else a

/-- One turn of `shutdown_event`. The url is written when the tracker has left the manager space. -/
def shutdownTracker (a : Announcer) (name : ByteString) : Announcer :=
  match a.world.find name with
  | none => a
  | some tracker =>
      let a := a.onWorld fun w => (w.change name (disarm .maximum)).sendToProtocolSpace name
      if tracker.state = .inactive then a
      else
        let a := if tracker.timers.type = .two then a.onWorld (·.change name (disarm .minimum)) else a
        (a.setAnnounceUrl name contextEvent).addRequest name

def handle (a : Announcer) : Call → Option Announcer
  | .start => a.startEvent
  | .reannounce => some (a.overManagerSpace reannounceTracker)
  | .forceReannounce => some (a.overManagerSpace forceReannounceTracker)
  | .shutdown => some (a.overManagerSpace shutdownTracker)

def runHandler (a : Announcer) (e : TrackerEvent) : Option Announcer :=
  match a.world.running e with
  | none => some a
  | some call => a.handle call

def step (env : TrackerEnvironment) (a : Announcer) : AnnouncerEvent → Option Announcer
  | .trackers (.signal e) => do
      let loop ← a.world.loop.step e
      let a ← a.runHandler (.signal e)
      some (a.onWorld fun w =>
        { w with events := loop.toEventSystem, manager := { w.manager with active := loop.active } })
  | .trackers (.timerExpires name which) => do
      let tracker ← a.world.find name
      if a.world.events.invocation = .idle ∧ TrackerWorld.Expires tracker which then
        some (a.trackerTimeoutHandler name which)
      else none
  | .trackers e => (a.world.step env e).map fun world => { a with world }
  | .updateContext dwn upd => some { a with context := a.context.updateContext dwn upd }

end Announcer

/-- The manager of a torrent, as its constructor leaves it. -/
def announcerMachine (env : TrackerEnvironment) (curlEscape : List Byte → List Byte) (torrent : TorrentFile)
    (port : Int32) : Machine Announcer AnnouncerEvent where
  Init a := ∃ urls manager trackerConnections startedTp,
    torrent.getTrackerUrls = .ok urls ∧ TrackerManager.initiatlizeTrackers urls = some manager ∧
      trackerConnections.Perm manager.trackerConnections ∧
        a = ⟨.initial { manager with trackerConnections }, .constructed curlEscape torrent port, startedTp,
          fun _ => [], []⟩
  Step a e a' := a.step env e = some a'

namespace Announcer

/-! ### The manager within -/

section

variable (a : Announcer) (name : ByteString)

@[simp] theorem world_onWorld (f : TrackerWorld → TrackerWorld) : (a.onWorld f).world = f a.world := rfl

@[simp] theorem world_setAnnounceUrl (event : AnnounceEvent) : (a.setAnnounceUrl name event).world = a.world := by
  rw [setAnnounceUrl]
  split
  · rfl
  · rfl

@[simp] theorem world_addRequest : (a.addRequest name).world = a.world.addRequest name := rfl

@[simp] theorem world_announce (event : AnnounceEvent) :
    (a.announce name event).world = (a.world.sendToProtocolSpace name).addRequest name := by
  simp [announce]

theorem world_trackerTimeoutHandler (which : TimerName) :
    (a.trackerTimeoutHandler name which).world = a.world.trackerTimeoutHandler name which := by
  rw [trackerTimeoutHandler, TrackerWorld.trackerTimeoutHandler]
  dsimp only [onWorld]
  cases (a.world.change name (disarm which)).find name with
  | none => rfl
  | some tracker =>
      by_cases hwaiting : tracker.Waiting
      · simp only [if_pos hwaiting]
      · simp only [if_neg hwaiting, world_announce]

theorem world_reannounceTracker : (a.reannounceTracker name).world = a.world.reannounceTracker name := by
  rw [reannounceTracker, TrackerWorld.reannounceTracker]
  cases a.world.find name with
  | none => rfl
  | some tracker =>
      by_cases hreannounced : tracker.Reannounced
      · simp only [if_pos hreannounced, world_announce, world_onWorld]
      · simp only [if_neg hreannounced]

theorem world_forceReannounceTracker :
    (a.forceReannounceTracker name).world = a.world.forceReannounceTracker name := by
  rw [forceReannounceTracker, TrackerWorld.forceReannounceTracker]
  cases a.world.find name with
  | none => rfl
  | some tracker =>
      by_cases hactive : tracker.state = .active
      · simp only [if_pos hactive, world_announce, world_onWorld]
      · simp only [if_neg hactive]

theorem world_shutdownTracker : (a.shutdownTracker name).world = a.world.shutdownTracker name := by
  rw [shutdownTracker, TrackerWorld.shutdownTracker]
  cases a.world.find name with
  | none => rfl
  | some tracker =>
      by_cases hinactive : tracker.state = .inactive
      · simp only [if_pos hinactive, world_onWorld]
      · simp only [if_neg hinactive, world_addRequest, world_setAnnounceUrl]
        split
        · rfl
        · rfl

end

theorem world_sweep {body : Announcer → ByteString → Announcer} {body' : TrackerWorld → ByteString → TrackerWorld}
    (hbody : ∀ a name, (body a name).world = body' a.world name) (turns i : Nat) (cells : List ByteString)
    (a : Announcer) : (sweep body turns i cells a).world = TrackerWorld.sweep body' turns i cells a.world := by
  induction turns generalizing i cells a with
  | zero => rfl
  | succ turns ih =>
      rw [sweep, TrackerWorld.sweep, ih]
      cases cells[i]? with
      | none => rfl
      | some name => simp only [hbody]

theorem world_handle (a : Announcer) (call : Call) : (a.handle call).map world = a.world.handle call := by
  cases call with
  | start =>
      rw [handle, startEvent, Option.map_map]
      exact Option.map_id'
  | reannounce => exact congrArg some (world_sweep world_reannounceTracker _ _ _ a)
  | forceReannounce => exact congrArg some (world_sweep world_forceReannounceTracker _ _ _ a)
  | shutdown => exact congrArg some (world_sweep world_shutdownTracker _ _ _ a)

theorem world_runHandler (a : Announcer) (e : TrackerEvent) :
    (a.runHandler e).map world = a.world.runHandler e := by
  rw [runHandler, TrackerWorld.runHandler]
  cases a.world.running e with
  | none => rfl
  | some call => exact world_handle a call

/-- What the announces say changes nothing: the manager takes the steps that it takes without them. -/
theorem world_step (env : TrackerEnvironment) (a : Announcer) (e : TrackerEvent) :
    (a.step env (.trackers e)).map world = a.world.step env e := by
  cases e with
  | signal e =>
      rw [step, TrackerWorld.step, ← world_runHandler]
      cases a.world.loop.step e with
      | none => rfl
      | some loop =>
          cases a.runHandler (.signal e) with
          | none => rfl
          | some a' => rfl
  | timerExpires name which =>
      rw [step, TrackerWorld.step]
      cases a.world.find name with
      | none => rfl
      | some tracker =>
          simp only [Option.bind_eq_bind, Option.bind_some]
          split
          · exact congrArg some (world_trackerTimeoutHandler a name which)
          · rfl
  | finished name body => exact (Option.map_map _ _ _).trans Option.map_id'
  | elapse time => exact (Option.map_map _ _ _).trans Option.map_id'
  | consume count => rfl

variable {env : TrackerEnvironment} {curlEscape : List Byte → List Byte} {torrent : TorrentFile} {port : Int32}
  {a a₀ a₁ a' : Announcer} {e : AnnouncerEvent} {es : List AnnouncerEvent}

/-- Every run of the manager has its announces. -/
theorem exists_announcer {es : List TrackerEvent} {w : TrackerWorld} (hrun : (trackerMachine env).Run a.world es w) :
    ∃ a', (announcerMachine env curlEscape torrent port).Run a (es.map .trackers) a' ∧ a'.world = w := by
  generalize hw : a.world = w₀ at hrun
  induction hrun with
  | refl => exact ⟨a, .refl a, hw⟩
  | snoc _ hstep ih =>
      obtain ⟨a₁, hrun, rfl⟩ := ih
      obtain ⟨a', ha', rfl⟩ := Option.map_eq_some_iff.mp ((world_step env a₁ _).trans hstep)
      refine ⟨a', ?_, rfl⟩
      rw [List.map_append, List.map_singleton]
      exact .snoc hrun ha'

end Announcer

/-! ### What the handlers leave alone -/

namespace Tracker

/-- What an announce says of a tracker, and whether it is made. -/
def voice (tracker : Tracker) : AnnounceList × TrackerProto × ByteString :=
  (tracker.announceUrl, tracker.currentProto, tracker.trackerId)

/-- The urls that a tracker was listed with, and the id that it gave. -/
def credentials (tracker : Tracker) : List ByteString × ByteString := (tracker.announceUrl.list, tracker.trackerId)

theorem credentials_of_voice {tracker tracker' : Tracker} (h : tracker'.voice = tracker.voice) :
    tracker'.credentials = tracker.credentials :=
  congrArg (fun voice => (voice.1.list, voice.2.2)) h

end Tracker

namespace TrackerWorld

variable {α : Type} {part : Tracker → α} {env : TrackerEnvironment} {w w₁ w' : TrackerWorld}
  {n name : ByteString} {tracker tracker' : Tracker}

/-- Each tracker has this part as before. -/
def KeepsPart (part : Tracker → α) (w w' : TrackerWorld) : Prop :=
  ∀ n tracker', w'.find n = some tracker' → ∃ tracker, w.find n = some tracker ∧ part tracker' = part tracker

namespace KeepsPart

theorem refl (w : TrackerWorld) : KeepsPart part w w := fun _ tracker h => ⟨tracker, h, rfl⟩

theorem trans (h : KeepsPart part w w₁) (h' : KeepsPart part w₁ w') : KeepsPart part w w' := by
  intro n tracker' hfind
  obtain ⟨tracker₁, hfind₁, hpart₁⟩ := h' n tracker' hfind
  obtain ⟨tracker, hfind, hpart⟩ := h n tracker₁ hfind₁
  exact ⟨tracker, hfind, hpart₁.trans hpart⟩

theorem of_same (h : w'.manager.trackerConnections = w.manager.trackerConnections) : KeepsPart part w w' := by
  intro n tracker' hfind
  rw [find, TrackerManager.find, h] at hfind
  exact ⟨tracker', hfind, rfl⟩

theorem change (w : TrackerWorld) (name : ByteString) {f : Tracker → Tracker}
    (hf : ∀ tracker, part (f tracker) = part tracker) : KeepsPart part w (w.change name f) := by
  intro n tracker' hfind
  rw [find_change] at hfind
  split at hfind
  · obtain ⟨tracker, hbefore, rfl⟩ := Option.map_eq_some_iff.mp hfind
    exact ⟨tracker, hbefore, hf tracker⟩
  · exact ⟨tracker', hfind, rfl⟩

theorem check (w : TrackerWorld) (c : TrackerCheck) (expected : Prop) [Decidable expected] :
    KeepsPart part w (w.check c expected) := by
  unfold TrackerWorld.check
  split
  · exact .refl w
  · exact .of_same rfl

theorem sendToProtocolSpace (hidx : ∀ idx tracker, part (setManagerSpaceIdx idx tracker) = part tracker)
    (w : TrackerWorld) (name : ByteString) : KeepsPart part w (w.sendToProtocolSpace name) := by
  rw [TrackerWorld.sendToProtocolSpace]
  dsimp only
  have hcheck := @check _ part w .handOver (name ∈ w.space ∧ name ∉ w.requests) _
  generalize w.check .handOver (name ∈ w.space ∧ name ∉ w.requests) = w₁ at hcheck
  split
  · rename_i last tracker _ _
    have hchange := @change _ part w₁ last _ (hidx tracker.context.managerSpaceIdx)
    exact hcheck.trans (hchange.trans (.of_same rfl))
  · exact hcheck

theorem addRequest (w : TrackerWorld) (name : ByteString) : KeepsPart part w (w.addRequest name) := by
  rw [TrackerWorld.addRequest]
  split
  · split
    · exact .of_same rfl
    · exact .refl w
  · exact .refl w

end KeepsPart

theorem send_keepsVoice (w : TrackerWorld) (name : ByteString) :
    KeepsPart voice w (w.sendToProtocolSpace name) := .sendToProtocolSpace (fun _ _ => rfl) w name

/-- Each tracker that an announce may go to is at an http url of its list. -/
def Voiced (w : TrackerWorld) : Prop :=
  ∀ n tracker, w.find n = some tracker → tracker.currentProto = .http →
    ∃ url ∈ tracker.announceUrl.list, tracker.getUrl = some url ∧ isHttp url = true

theorem getUrl_of_voice (h : tracker'.voice = tracker.voice) : tracker'.getUrl = tracker.getUrl :=
  congrArg (fun voice => voice.1.list[voice.1.currentIdx]?) h

theorem Voiced.keeps (h : Voiced w) (hkeeps : KeepsPart voice w w') : Voiced w' := by
  intro n tracker' hfind hproto
  obtain ⟨tracker, hfind, hvoice⟩ := hkeeps n tracker' hfind
  have hproto' : tracker.currentProto = .http :=
    (congrArg (fun voice => voice.2.1) hvoice).symm.trans hproto
  obtain ⟨url, hmem, hurl, hhttp⟩ := h n tracker hfind hproto'
  have hlist : tracker'.announceUrl.list = tracker.announceUrl.list := congrArg (fun voice => voice.1.list) hvoice
  exact ⟨url, hlist.symm ▸ hmem, (getUrl_of_voice hvoice).trans hurl, hhttp⟩

end TrackerWorld

/-! ### What a handler announces -/

namespace Announcer

open TrackerWorld

variable {env : TrackerEnvironment} {curlEscape : List Byte → List Byte} {torrent : TorrentFile} {port : Int32}
  {a a₀ a₁ a' : Announcer} {e : AnnouncerEvent} {es : List AnnouncerEvent} {event : AnnounceEvent}
  {request : ByteString × List Byte}

/-- The request says of its tracker what the manager knows of it here. -/
def Says (a : Announcer) (event : AnnounceEvent) (request : ByteString × List Byte) : Prop :=
  ∃ tracker, a.world.find request.1 = some tracker ∧ tracker.currentProto = .http ∧
    a.context.announceUrl tracker event = some request.2

/-- The totals and the trackers are as before, and the requests made say so. -/
structure Announces (event : AnnounceEvent) (a a' : Announcer) : Prop where
  context : a'.context = a.context
  voices : KeepsPart voice a.world a'.world
  announced : ∃ requests, a'.announced = a.announced ++ requests ∧ ∀ request ∈ requests, Says a event request

theorem announceUrl_of_voice {context : ManagerContext} {tracker tracker' : Tracker}
    (h : tracker'.voice = tracker.voice) :
    context.announceUrl tracker' event = context.announceUrl tracker event := by
  have hid : tracker'.trackerId = tracker.trackerId := congrArg (fun voice => voice.2.2) h
  rw [ManagerContext.announceUrl, ManagerContext.announceUrl, getUrl_of_voice h, hid]

theorem Says.before (hcontext : a₁.context = a.context) (hvoices : KeepsPart voice a.world a₁.world)
    (h : Says a₁ event request) : Says a event request := by
  obtain ⟨tracker₁, hfind₁, hproto, hurl⟩ := h
  obtain ⟨tracker, hfind, hvoice⟩ := hvoices _ _ hfind₁
  refine ⟨tracker, hfind, (congrArg (fun voice => voice.2.1) hvoice).symm.trans hproto, ?_⟩
  rwa [← hcontext, ← announceUrl_of_voice hvoice]

namespace Announces

theorem of_quiet (hcontext : a'.context = a.context) (hannounced : a'.announced = a.announced)
    (hvoices : KeepsPart voice a.world a'.world) : Announces event a a' :=
  ⟨hcontext, hvoices, [], by rw [hannounced, List.append_nil], fun _ h => absurd h List.not_mem_nil⟩

theorem refl (a : Announcer) : Announces event a a := of_quiet rfl rfl (.refl a.world)

theorem onWorld {f : TrackerWorld → TrackerWorld} (h : KeepsPart voice a.world (f a.world)) :
    Announces event a (a.onWorld f) := of_quiet rfl rfl h

theorem trans (h : Announces event a a₁) (h' : Announces event a₁ a') : Announces event a a' := by
  obtain ⟨requests, hannounced, htold⟩ := h.announced
  obtain ⟨requests', hannounced', htold'⟩ := h'.announced
  refine ⟨h'.context.trans h.context, h.voices.trans h'.voices, requests ++ requests', ?_, ?_⟩
  · rw [hannounced', hannounced, List.append_assoc]
  · intro request hrequest
    rcases List.mem_append.mp hrequest with hfirst | hsecond
    · exact htold request hfirst
    · exact (htold' request hsecond).before h.context h.voices

end Announces

theorem setAnnounceUrl_eq (a : Announcer) (name : ByteString) (event : AnnounceEvent) :
    (a.setAnnounceUrl name event).context = a.context ∧ (a.setAnnounceUrl name event).announced = a.announced := by
  rw [setAnnounceUrl]
  split
  · exact ⟨rfl, rfl⟩
  · exact ⟨rfl, rfl⟩

theorem setAnnounceUrl_url {name : ByteString} {tracker : Tracker} {url : List Byte}
    (hfind : a.world.find name = some tracker) (hurl : a.context.announceUrl tracker event = some url) :
    (a.setAnnounceUrl name event).urls name = url := by
  have hsome : ((a.world.find name).bind fun tracker => a.context.announceUrl tracker event) = some url := by
    rw [hfind]
    exact hurl
  rw [setAnnounceUrl, hsome]
  exact Function.update_self name url a.urls

/-- A request is made with the url just written. -/
theorem addRequest_announces (hvoiced : Voiced a.world) {f : TrackerWorld → TrackerWorld}
    (hf : KeepsPart voice a.world (f a.world)) (name : ByteString) :
    Announces event a (((a.setAnnounceUrl name event).onWorld f).addRequest name) := by
  obtain ⟨hcontext, hannounced⟩ := setAnnounceUrl_eq a name event
  have hworld : ((a.setAnnounceUrl name event).onWorld f).world = f a.world := by simp
  have hvoices : KeepsPart voice a.world (((a.setAnnounceUrl name event).onWorld f).addRequest name).world := by
    rw [world_addRequest, hworld]
    exact hf.trans (.addRequest _ name)
  by_cases hnew : name ∈ ((f a.world).addRequest name).requests ∧ name ∉ (f a.world).requests
  · obtain ⟨tracker', hfind', hproto'⟩ :=
      ((addRequest_keepsPlans (f a.world) name).requests name hnew.1).resolve_left hnew.2
    obtain ⟨tracker, hfind, hvoice⟩ := hf name tracker' hfind'
    have hproto : tracker.currentProto = .http := (congrArg (fun voice => voice.2.1) hvoice).symm.trans hproto'
    obtain ⟨url, -, hurl, -⟩ := hvoiced name tracker hfind hproto
    have htext := @ManagerContext.announceUrl_eq a.context tracker event url hurl
    refine ⟨hcontext, hvoices, [(name, (a.setAnnounceUrl name event).urls name)], ?_, fun request hrequest => ?_⟩
    · rw [← hannounced, addRequest, hworld]
      exact if_pos hnew
    · rw [List.mem_singleton.mp hrequest]
      refine ⟨tracker, hfind, hproto, htext.trans ?_⟩
      rw [setAnnounceUrl_url hfind htext]
  · refine .of_quiet hcontext ?_ hvoices
    rw [← hannounced, addRequest, hworld]
    exact if_neg hnew

theorem announce_announces (hvoiced : Voiced a.world) (name : ByteString) :
    Announces event a (a.announce name event) :=
  addRequest_announces hvoiced (send_keepsVoice a.world name) name

/-- The manager is left ready for an announce. -/
theorem Announces.announce {f : TrackerWorld → TrackerWorld} (hvoiced : Voiced a.world)
    (hf : KeepsPart voice a.world (f a.world)) (name : ByteString) :
    Announces event a ((a.onWorld f).announce name event) :=
  (Announces.onWorld hf).trans (announce_announces (hvoiced.keeps hf) name)

/-- The event of the announces that a step makes. -/
def told (a : Announcer) : AnnouncerEvent → AnnounceEvent
  | .trackers (.timerExpires _ _) => a.timeoutEvent
  | _ => contextEvent

/-- What a step does. Only a start and the end of a request change what is said of a tracker. -/
inductive Acts (env : TrackerEnvironment) (a : Announcer) : AnnouncerEvent → Announcer → Prop
  | announces {e : TrackerEvent} {a' : Announcer} : (∀ name body, e ≠ .finished name body) →
      Announces (a.told (.trackers e)) a a' → Acts env a (.trackers e) a'
  | starts {e : TrackerEvent} {w : TrackerWorld} {startedTp : Rat} : (∀ name body, e ≠ .finished name body) →
      KeepsPart credentials a.world w → Acts env a (.trackers e) { a with world := w, startedTp }
  | ends {name : ByteString} {body : Option (List Byte)} {w : TrackerWorld} :
      a.world.step env (.finished name body) = some w →
        Acts env a (.trackers (.finished name body)) { a with world := w }
  | updates (dwn upd : Nat) :
      Acts env a (.updateContext dwn upd) { a with context := a.context.updateContext dwn upd }

end Announcer

end TorrentEngine
