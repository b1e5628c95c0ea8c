import TorrentEngine.Library.Transition
import Mathlib.Data.BitVec

/-! The event system of the tracker manager. Other threads set a bit with an atomic `fetch_or` and then
signal the loop; `handle_event` loads the bits, runs the handlers they ask for, and clears with an atomic
`fetch_and` the bits that it handled. The steps of the callers and of an invocation interleave freely. -/

open Transition

namespace TorrentEngine

/-! ### The masks -/

def startMask : BitVec 8 := 1#8 <<< 0

def reannounceMask : BitVec 8 := 1#8 <<< 1

def forceReannounceMask : BitVec 8 := 1#8 <<< 2

def shutdownMask : BitVec 8 := 1#8 <<< 3

/-- The bit test `event & mask`. -/
def has (event mask : BitVec 8) : Bool := event &&& mask != 0

/-- The public calls of the manager, each of which sets a bit for a handler of its own. -/
inductive Call where
  | start
  | reannounce
  | forceReannounce
  | shutdown
  deriving DecidableEq

namespace Call

def mask : Call → BitVec 8
  | .start => startMask
  | .reannounce => reannounceMask
  | .forceReannounce => forceReannounceMask
  | .shutdown => shutdownMask

/-- Whether `handle_event` runs the handler, by the bits it loaded. -/
def runs (call : Call) (event : BitVec 8) (active : Bool) : Bool :=
  match call with
  | .start => has event startMask && !active
  | .shutdown => has event shutdownMask && active
  | .forceReannounce => active && has event forceReannounceMask
  | .reannounce => active && has event reannounceMask

/-- The active flag after the handler. -/
def activeAfter (call : Call) (active : Bool) : Bool :=
  match call with
  | .start => true
  | .shutdown => false
  | .forceReannounce | .reannounce => active

/-- The bits that the handler takes care of. -/
def handles : Call → BitVec 8
  | .start => startMask
  | .shutdown => shutdownMask ||| reannounceMask ||| forceReannounceMask
  | .forceReannounce => forceReannounceMask ||| reannounceMask
  | .reannounce => reannounceMask

/-- The loaded bits after the handler. A forced announce stands for a plain one. -/
def eventAfter (call : Call) (event : BitVec 8) : BitVec 8 :=
  match call with
  | .forceReannounce => event &&& ~~~reannounceMask
  | _ => event

/-- The tests of `handle_event`, in order. -/
def tests : List Call := [.start, .shutdown, .forceReannounce, .reannounce]

end Call

/-! ### The machine -/

/-- Where `handle_event` stands. -/
inductive Invocation where
  | idle
  /-- libev calls the handler, which has not loaded the bits yet. -/
  | entered
  /-- The tests still ahead, the loaded bits, and the mask of handled ones. -/
  | handling (calls : List Call) (event handled : BitVec 8)
  deriving DecidableEq

/-- `event_system_t` with the threads that use it. The last two fields are counted for the proofs. -/
structure EventSystem where
  set : BitVec 8
  /-- The loop will invoke `handle_event`. -/
  signalled : Bool
  invocation : Invocation
  /-- How many calls stand between their `fetch_or` and their `send`. -/
  sending : Nat
  /-- The last of the calls `start` and `shutdown`. -/
  lastCall : Option Call
  /-- How often `handle_event` fed its own signal. -/
  feeds : Nat

/-- The event system together with `tracker_context.active`. -/
structure EventLoop extends EventSystem where
  active : Bool

inductive SignalEvent where
  | fetchOr (call : Call)
  | send
  | enter
  | load
  /-- The next test, with the handler when it runs. -/
  | test
  | fetchAnd
  deriving DecidableEq

namespace EventLoop

def initial : EventLoop := ⟨⟨0, false, .idle, 0, none, 0⟩, false⟩

/-- The last of `start` and `shutdown` after this call. -/
def recordCall (last : Option Call) : Call → Option Call
  | .start => some .start
  | .shutdown => some .shutdown
  | .reannounce | .forceReannounce => last

def step (s : EventLoop) : SignalEvent → Option EventLoop
  | .fetchOr call =>
      some { s with
        set := s.set ||| call.mask, sending := s.sending + 1, lastCall := recordCall s.lastCall call }
  | .send =>
      match s.sending with
      | 0 => none
      | sending + 1 => some { s with signalled := true, sending }
  | .enter =>
      if s.invocation = .idle ∧ s.signalled then
        some { s with signalled := false, invocation := .entered }
      else none
  | .load =>
      if s.invocation = .entered then some { s with invocation := .handling Call.tests s.set 0 }
      else none
  | .test =>
      match s.invocation with
      | .handling (call :: calls) event handled =>
          if call.runs event s.active then
            some { s with
              active := call.activeAfter s.active
              invocation := .handling calls (call.eventAfter event) (handled ||| call.handles) }
          else some { s with invocation := .handling calls event handled }
      | _ => none
  | .fetchAnd =>
      match s.invocation with
      | .handling [] _ handled =>
          let previous := s.set
          let s := { s with set := s.set &&& ~~~handled, invocation := .idle }
          if previous &&& ~~~handled != 0 then
            some { s with signalled := true, feeds := s.feeds + 1 }
          else some s
      | _ => none

end EventLoop

/-- The callers, the loop and the invocations of `handle_event`. -/
def eventMachine : Machine EventLoop SignalEvent where
  Init s := s = .initial
  Step s e s' := s.step e = some s'

namespace EventLoop

/-! ### What an invocation leaves -/

/-- The active flag and the handled bits at the end of these tests. -/
def conclude : List Call → BitVec 8 → BitVec 8 → Bool → Bool × BitVec 8
  | [], _, handled, active => (active, handled)
  | call :: calls, event, handled, active =>
      if call.runs event active then
        conclude calls (call.eventAfter event) (handled ||| call.handles) (call.activeAfter active)
      else conclude calls event handled active

/-- The active flag that the invocation in progress leaves. -/
def heading (s : EventLoop) : Bool :=
  match s.invocation with
  | .handling calls event handled => (conclude calls event handled s.active).1
  | _ => s.active

/-- The bits that the invocation in progress clears. -/
def clearing (s : EventLoop) : BitVec 8 :=
  match s.invocation with
  | .handling calls event handled => (conclude calls event handled s.active).2
  | _ => 0

/-- The bits that the invocation in progress leaves set. -/
def pending (s : EventLoop) : BitVec 8 := s.set &&& ~~~s.clearing

variable {s s' : EventLoop} {e : SignalEvent}

theorem pending_of_clearing (h : s.clearing = 0) : s.pending = s.set := by
  rw [pending, h]
  exact BitVec.and_allOnes

theorem heading_of_handling {calls : List Call} {event handled : BitVec 8}
    (h : s.invocation = .handling calls event handled) :
    s.heading = (conclude calls event handled s.active).1 := by
  rw [heading, h]

theorem pending_of_handling {calls : List Call} {event handled : BitVec 8}
    (h : s.invocation = .handling calls event handled) :
    s.pending = s.set &&& ~~~(conclude calls event handled s.active).2 := by
  rw [pending, clearing, h]

theorem heading_of_idle (h : s.invocation = .idle) : s.heading = s.active := by
  rw [heading, h]

theorem pending_of_idle (h : s.invocation = .idle) : s.pending = s.set :=
  pending_of_clearing (by rw [clearing, h])

theorem heading_of_entered (h : s.invocation = .entered) : s.heading = s.active := by
  rw [heading, h]

theorem pending_of_entered (h : s.invocation = .entered) : s.pending = s.set :=
  pending_of_clearing (by rw [clearing, h])

theorem fetchOr_spec {call : Call} (h : s.step (.fetchOr call) = some s') :
    s'.heading = s.heading ∧ s'.clearing = s.clearing ∧ s'.set = s.set ||| call.mask ∧
      s'.lastCall = recordCall s.lastCall call := by
  cases h
  exact ⟨rfl, rfl, rfl, rfl⟩

/-- The load begins an invocation with all bits that are set. -/
theorem load_spec (h : s.step .load = some s') :
    s'.heading = (conclude Call.tests s.pending 0 s.heading).1 ∧
      s'.pending = s.pending &&& ~~~(conclude Call.tests s.pending 0 s.heading).2 ∧
        s'.feeds = s.feeds ∧ s'.lastCall = s.lastCall ∧ s'.set = s.set ∧
          s.invocation = .entered ∧ s'.invocation = .handling Call.tests s.set 0 := by
  rw [step] at h
  split at h
  · rename_i hentered
    rw [pending_of_entered hentered, heading_of_entered hentered]
    cases h
    exact ⟨rfl, rfl, rfl, rfl, rfl, hentered, rfl⟩
  · cases h

/-- A test, with its handler, is what the invocation in progress was going to do. -/
theorem test_spec (h : s.step .test = some s') :
    s'.heading = s.heading ∧ s'.pending = s.pending ∧ s'.feeds = s.feeds ∧
      s'.lastCall = s.lastCall ∧ s'.set = s.set ∧
        ∃ call calls event handled, s.invocation = .handling (call :: calls) event handled ∧
          ∃ event' handled', s'.invocation = .handling calls event' handled' := by
  rw [step] at h
  split at h
  · rename_i call calls event handled hinvocation
    rw [pending_of_handling hinvocation, heading_of_handling hinvocation, conclude]
    split at h
    · rename_i hruns
      rw [if_pos hruns]
      cases h
      exact ⟨rfl, rfl, rfl, rfl, rfl, _, _, _, _, hinvocation, _, _, rfl⟩
    · rename_i hruns
      rw [if_neg hruns]
      cases h
      exact ⟨rfl, rfl, rfl, rfl, rfl, _, _, _, _, hinvocation, _, _, rfl⟩
  · cases h

/-- The signal is fed exactly when the invocation leaves a bit set. -/
theorem fetchAnd_spec (h : s.step .fetchAnd = some s') :
    s'.heading = s.heading ∧ s'.pending = s.pending ∧ s'.set = s.pending ∧
      s'.feeds = s.feeds + (if s.pending = 0 then 0 else 1) ∧ s'.lastCall = s.lastCall ∧
        (s.pending ≠ 0 → s'.signalled = true) ∧ s'.invocation = .idle ∧
          ∃ event handled, s.invocation = .handling [] event handled := by
  rw [step] at h
  split at h
  · rename_i event handled hinvocation
    rw [pending_of_handling hinvocation, heading_of_handling hinvocation]
    dsimp only [conclude] at h ⊢
    split at h
    · rename_i hleft
      have hne : s.set &&& ~~~handled ≠ 0 := bne_iff_ne.mp hleft
      have hfed : (if s.set &&& ~~~handled = 0 then 0 else 1) = 1 := if_neg hne
      cases h
      exact ⟨rfl, pending_of_idle rfl, rfl, (congrArg (s.feeds + ·) hfed).symm, rfl, fun _ => rfl, rfl, event, handled, hinvocation⟩
    · rename_i hleft
      have hzero : s.set &&& ~~~handled = 0 := by
        by_contra hne
        exact hleft (bne_iff_ne.mpr hne)
      have hfed : (if s.set &&& ~~~handled = 0 then 0 else 1) = 0 := if_pos hzero
      cases h
      exact ⟨rfl, pending_of_idle rfl, rfl, (congrArg (s.feeds + ·) hfed).symm, rfl, fun hne => absurd hzero hne, rfl, event, handled,
        hinvocation⟩
  · cases h

theorem enter_spec (h : s.step .enter = some s') :
    s'.heading = s.heading ∧ s'.pending = s.pending ∧ s'.feeds = s.feeds ∧
      s'.lastCall = s.lastCall ∧ s'.set = s.set ∧ s.invocation = .idle ∧
        s'.invocation = .entered := by
  rw [step] at h
  split at h
  · rename_i hidle
    rw [pending_of_idle hidle.1, heading_of_idle hidle.1]
    cases h
    exact ⟨rfl, pending_of_entered rfl, rfl, rfl, rfl, hidle.1, rfl⟩
  · cases h

theorem send_spec (h : s.step .send = some s') :
    s'.heading = s.heading ∧ s'.pending = s.pending ∧ s'.feeds = s.feeds ∧
      s'.lastCall = s.lastCall ∧ s'.set = s.set ∧ s'.invocation = s.invocation ∧
        s'.signalled = true := by
  rw [step] at h
  split at h
  · cases h
  · cases h
    exact ⟨rfl, rfl, rfl, rfl, rfl, rfl, rfl⟩

/-- Only a test, with its handler, changes the active flag. -/
theorem active_step (hne : e ≠ .test) (h : s.step e = some s') : s'.active = s.active := by
  cases e with
  | test => exact absurd rfl hne
  | fetchOr call =>
      cases h
      rfl
  | send =>
      rw [step] at h
      split at h
      · cases h
      · cases h
        rfl
  | enter =>
      rw [step] at h
      split at h
      · cases h
        rfl
      · cases h
  | load =>
      rw [step] at h
      split at h
      · cases h
        rfl
      · cases h
  | fetchAnd =>
      rw [step] at h
      split at h
      · dsimp only at h
        split at h
        · cases h
          rfl
        · cases h
          rfl
      · cases h

/-! ### Bits that no invocation clears -/

/-- The bits that a call can set. -/
def callMask : BitVec 8 := startMask ||| reannounceMask ||| forceReannounceMask ||| shutdownMask

/-- The requests that no invocation will ever clear: any but a start while the manager is inactive, and
a start while it is active, as long as no shutdown is requested. -/
def Stuck (active : Bool) (requests : BitVec 8) : Prop :=
  if active then has requests startMask ∧ ¬ has requests shutdownMask
  else requests ≠ 0 ∧ ¬ has requests startMask

instance (active : Bool) (requests : BitVec 8) : Decidable (Stuck active requests) := by
  unfold Stuck
  infer_instance

/-- How often the signal is fed for these requests, between invocations. A start and a shutdown that
meet an active manager take two of them. -/
def remainingFeeds (active : Bool) (requests : BitVec 8) : Nat :=
  if active && has requests startMask && has requests shutdownMask then 1 else 0

theorem conclude_tests (active : Bool) (requests : BitVec 8) (hcalls : requests &&& ~~~callMask = 0) :
    let result := conclude Call.tests requests 0 active
    let left := requests &&& ~~~result.2
    (Stuck result.1 left ↔ Stuck active requests) ∧
      (¬ Stuck active requests →
        (if left = 0 then 0 else 1) + remainingFeeds result.1 left =
          remainingFeeds active requests) := by
  revert active requests
  decide +kernel

theorem callMask_or (call : Call) (requests : BitVec 8) (hcalls : requests &&& ~~~callMask = 0) :
    (requests ||| call.mask) &&& ~~~callMask = 0 := by
  have hmask : call.mask &&& ~~~callMask = 0 := by cases call <;> decide
  rw [BitVec.and_or_distrib_right, hcalls, hmask]
  rfl

theorem callMask_and (requests handled : BitVec 8) (hcalls : requests &&& ~~~callMask = 0) :
    (requests &&& ~~~handled) &&& ~~~callMask = 0 := by
  rw [BitVec.and_assoc, BitVec.and_comm (~~~handled), ← BitVec.and_assoc, hcalls]
  exact BitVec.zero_and

/-- Only bits that belong to a call are ever set, and the loop is on its way to the handler, by a signal
or by a call about to send one, as long as a bit is set outside an invocation. -/
structure Attended (s : EventLoop) : Prop where
  calls : s.set &&& ~~~callMask = 0
  noticed : s.invocation = .idle → s.set ≠ 0 → s.signalled = true ∨ 0 < s.sending

theorem initial_attended : Attended initial where
  calls := rfl
  noticed _ hset := absurd rfl hset

theorem Attended.step (hs : Attended s) (h : s.step e = some s') : Attended s' := by
  cases e with
  | fetchOr call =>
      cases h
      exact ⟨callMask_or call s.set hs.calls, fun _ _ => Or.inr (Nat.succ_pos _)⟩
  | send =>
      obtain ⟨-, -, -, -, hset, -, hsignalled⟩ := send_spec h
      exact ⟨by rw [hset]; exact hs.calls, fun _ _ => Or.inl hsignalled⟩
  | enter =>
      obtain ⟨-, -, -, -, hset, -, hentered⟩ := enter_spec h
      exact ⟨by rw [hset]; exact hs.calls, fun hidle => by rw [hentered] at hidle; cases hidle⟩
  | load =>
      obtain ⟨-, -, -, -, hset, -, hhandling⟩ := load_spec h
      exact ⟨by rw [hset]; exact hs.calls, fun hidle => by rw [hhandling] at hidle; cases hidle⟩
  | test =>
      obtain ⟨-, -, -, -, hset, _, _, _, _, -, _, _, hhandling⟩ := test_spec h
      exact ⟨by rw [hset]; exact hs.calls, fun hidle => by rw [hhandling] at hidle; cases hidle⟩
  | fetchAnd =>
      obtain ⟨-, -, hset, -, -, hsignalled, -, -⟩ := fetchAnd_spec h
      refine ⟨?_, fun _ hne => Or.inl (hsignalled (by rwa [hset] at hne))⟩
      rw [hset, pending]
      exact callMask_and _ _ hs.calls

theorem attended (h : eventMachine.Reachable s) : Attended s := by
  refine h.invariant Attended ?_ fun s e s' hs hstep => hs.step hstep
  rintro s rfl
  exact initial_attended

theorem pending_calls (h : eventMachine.Reachable s) : s.pending &&& ~~~callMask = 0 :=
  callMask_and _ _ (attended h).calls

/-! ### How often the signal is fed -/

/-- How often the signal will be fed when no further call arrives. -/
def feedsAhead (s : EventLoop) : Nat :=
  (match s.invocation with
    | .handling _ _ _ => if s.pending = 0 then 0 else 1
    | _ => 0) + remainingFeeds s.heading s.pending

/-- A step of a run without calls. -/
def NoCall (_ : EventLoop) (e : SignalEvent) : Prop := ∀ call, e ≠ .fetchOr call

/-- When no further call arrives, the handler feeds its own signal at most so often, whichever steps
follow. -/
def Quiesces (s : EventLoop) : Prop :=
  ∃ n, ∀ t, (eventMachine.startedAt s).ReachableBy NoCall t → t.feeds ≤ s.feeds + n

theorem stuck_step (hs : eventMachine.Reachable s) (hcall : NoCall s e) (h : s.step e = some s') :
    Stuck s'.heading s'.pending ↔ Stuck s.heading s.pending := by
  cases e with
  | fetchOr call => exact absurd rfl (hcall call)
  | send =>
      obtain ⟨hheading, hpending, -⟩ := send_spec h
      rw [hheading, hpending]
  | enter =>
      obtain ⟨hheading, hpending, -⟩ := enter_spec h
      rw [hheading, hpending]
  | load =>
      obtain ⟨hheading, hpending, -⟩ := load_spec h
      rw [hheading, hpending]
      exact (conclude_tests s.heading s.pending (pending_calls hs)).1
  | test =>
      obtain ⟨hheading, hpending, -⟩ := test_spec h
      rw [hheading, hpending]
  | fetchAnd =>
      obtain ⟨hheading, hpending, -⟩ := fetchAnd_spec h
      rw [hheading, hpending]

/-- A feed uses up one of the feeds ahead. -/
theorem feeds_step (hs : eventMachine.Reachable s) (hcall : NoCall s e)
    (hstuck : ¬ Stuck s.heading s.pending) (h : s.step e = some s') :
    s'.feeds + s'.feedsAhead = s.feeds + s.feedsAhead := by
  rw [feedsAhead, feedsAhead]
  cases e with
  | fetchOr call => exact absurd rfl (hcall call)
  | send =>
      obtain ⟨hheading, hpending, hfeeds, -, -, hinvocation, -⟩ := send_spec h
      rw [hheading, hpending, hfeeds, hinvocation]
  | enter =>
      obtain ⟨hheading, hpending, hfeeds, -, -, hidle, hentered⟩ := enter_spec h
      rw [hheading, hpending, hfeeds, hidle, hentered]
  | load =>
      obtain ⟨hheading, hpending, hfeeds, -, -, hentered, hhandling⟩ := load_spec h
      have hleft := (conclude_tests s.heading s.pending (pending_calls hs)).2 hstuck
      rw [← hheading, ← hpending] at hleft
      rw [hfeeds, hentered, hhandling]
      dsimp only
      rw [hleft, Nat.zero_add]
  | test =>
      obtain ⟨hheading, hpending, hfeeds, -, -, _, _, _, _, hhandling, _, _, hhandling'⟩ := test_spec h
      rw [hheading, hpending, hfeeds, hhandling, hhandling']
  | fetchAnd =>
      obtain ⟨hheading, hpending, -, hfeeds, -, -, hidle, _, _, hhandling⟩ := fetchAnd_spec h
      rw [hheading, hpending, hfeeds, hidle, hhandling]
      dsimp only
      omega

theorem quiesces_of_not_stuck (hs : eventMachine.Reachable s) (hstuck : ¬ Stuck s.heading s.pending) :
    Quiesces s := by
  refine ⟨s.feedsAhead, fun t ht => ?_⟩
  have hrun : ¬ Stuck t.heading t.pending ∧ t.feeds + t.feedsAhead = s.feeds + s.feedsAhead := by
    refine ht.invariant_startedAt
      (fun u => ¬ Stuck u.heading u.pending ∧ u.feeds + u.feedsAhead = s.feeds + s.feedsAhead)
      hs ⟨hstuck, rfl⟩ ?_
    rintro u e u' hu ⟨hu_stuck, hu_feeds⟩ hcall hstep
    refine ⟨fun hnow => hu_stuck ((stuck_step hu hcall hstep).mp hnow), ?_⟩
    rw [feeds_step hu hcall hu_stuck hstep, hu_feeds]
  omega

theorem stuck_run (hs : eventMachine.Reachable s) (hstuck : Stuck s.heading s.pending)
    (h : (eventMachine.startedAt s).ReachableBy NoCall s') : Stuck s'.heading s'.pending :=
  h.invariant_startedAt (fun u => Stuck u.heading u.pending) hs hstuck
    fun _ _ _ hu hu_stuck hcall hstep => (stuck_step hu hcall hstep).mpr hu_stuck

theorem Stuck.pending_ne {active : Bool} {requests : BitVec 8} (h : Stuck active requests) :
    requests ≠ 0 := by
  rintro rfl
  cases active <;> exact absurd h (by decide)

/-- A step that is not a call, as a run. -/
theorem single (h : s.step e = some s') (hcall : NoCall s e) :
    (eventMachine.startedAt s).ReachableBy NoCall s' :=
  .step (.init rfl) hcall h

/-- The event loop is about to invoke the handler. -/
def AboutToHandle (s : EventLoop) : Prop := s.invocation = .idle ∧ s.signalled = true

/-- An invocation that leaves a bit set feeds the signal at its end. -/
theorem finish_invocation {calls : List Call} {event handled : BitVec 8}
    (hhandling : s.invocation = .handling calls event handled) (hpending : s.pending ≠ 0) :
    ∃ t, (eventMachine.startedAt s).ReachableBy NoCall t ∧ AboutToHandle t ∧
      t.feeds = s.feeds + 1 := by
  induction calls generalizing s event handled with
  | nil =>
      obtain ⟨t, hstep⟩ : ∃ t, s.step .fetchAnd = some t := by
        rw [step, hhandling]
        dsimp only
        split <;> exact ⟨_, rfl⟩
      obtain ⟨-, -, -, hfeeds, -, hsignalled, hidle, -⟩ := fetchAnd_spec hstep
      rw [if_neg hpending] at hfeeds
      exact ⟨t, single hstep (fun _ => nofun), ⟨hidle, hsignalled hpending⟩, hfeeds⟩
  | cons call calls ih =>
      obtain ⟨t, hstep⟩ : ∃ t, s.step .test = some t := by
        rw [step, hhandling]
        dsimp only
        split <;> exact ⟨_, rfl⟩
      obtain ⟨-, hpending', hfeeds, -, -, _, _, _, _, hhandling', _, _, hnext⟩ := test_spec hstep
      rw [hhandling] at hhandling'
      cases hhandling'
      rw [← hpending'] at hpending
      obtain ⟨u, hrun, habout, hfed⟩ := ih hnext hpending
      exact ⟨u, (single hstep (fun _ => nofun)).trans_startedAt hrun, habout, by rw [hfed, hfeeds]⟩

theorem finish_entered (hs : eventMachine.Reachable s) (hstuck : Stuck s.heading s.pending)
    (hentered : s.invocation = .entered) :
    ∃ t, (eventMachine.startedAt s).ReachableBy NoCall t ∧ AboutToHandle t ∧
      t.feeds = s.feeds + 1 := by
  obtain ⟨t, hstep⟩ : ∃ t, s.step .load = some t := ⟨_, by rw [step, if_pos hentered]⟩
  obtain ⟨-, -, hfeeds, -, -, -, hhandling⟩ := load_spec hstep
  have hrun := single hstep (fun _ => nofun)
  obtain ⟨u, hrun', habout, hfed⟩ :=
    finish_invocation hhandling (stuck_run hs hstuck hrun).pending_ne
  exact ⟨u, hrun.trans_startedAt hrun', habout, by rw [hfed, hfeeds]⟩

theorem refeed (hs : eventMachine.Reachable s) (hstuck : Stuck s.heading s.pending)
    (habout : AboutToHandle s) :
    ∃ t, (eventMachine.startedAt s).ReachableBy NoCall t ∧ AboutToHandle t ∧
      t.feeds = s.feeds + 1 := by
  obtain ⟨t, hstep⟩ : ∃ t, s.step .enter = some t := ⟨_, by rw [step, if_pos ⟨habout.1, habout.2⟩]⟩
  obtain ⟨-, -, hfeeds, -, -, -, hentered⟩ := enter_spec hstep
  have hrun := single hstep (fun _ => nofun)
  obtain ⟨u, hrun', habout', hfed⟩ :=
    finish_entered (hrun.reachable_startedAt hs) (stuck_run hs hstuck hrun) hentered
  exact ⟨u, hrun.trans_startedAt hrun', habout', by rw [hfed, hfeeds]⟩

/-- With stuck requests the signal is fed again and again. -/
theorem refeed_often (hs : eventMachine.Reachable s) (hstuck : Stuck s.heading s.pending)
    (habout : AboutToHandle s) (n : Nat) :
    ∃ t, (eventMachine.startedAt s).ReachableBy NoCall t ∧ AboutToHandle t ∧
      t.feeds = s.feeds + n := by
  induction n with
  | zero => exact ⟨s, .init rfl, habout, rfl⟩
  | succ n ih =>
      obtain ⟨t, hrun, habout_t, hfeeds⟩ := ih
      obtain ⟨u, hrun', habout_u, hfeeds'⟩ :=
        refeed (hrun.reachable_startedAt hs) (stuck_run hs hstuck hrun) habout_t
      exact ⟨u, hrun.trans_startedAt hrun', habout_u, by rw [hfeeds', hfeeds, Nat.add_assoc]⟩

/-- Without further calls, stuck requests bring the loop back to the handler. -/
theorem stuck_returns (hs : eventMachine.Reachable s) (hstuck : Stuck s.heading s.pending) :
    ∃ t, (eventMachine.startedAt s).ReachableBy NoCall t ∧ AboutToHandle t ∧ s.feeds ≤ t.feeds := by
  cases hinvocation : s.invocation with
  | idle =>
      have hset : s.set ≠ 0 := by
        rw [← pending_of_idle hinvocation]
        exact hstuck.pending_ne
      rcases (attended hs).noticed hinvocation hset with hsignalled | hsending
      · exact ⟨s, .init rfl, ⟨hinvocation, hsignalled⟩, Nat.le_refl _⟩
      · obtain ⟨n, hn⟩ := Nat.exists_eq_add_one_of_ne_zero hsending.ne'
        obtain ⟨t, hstep⟩ : ∃ t, s.step .send = some t := ⟨_, by rw [step, hn]⟩
        obtain ⟨-, -, hfeeds, -, -, hidle, hsignalled⟩ := send_spec hstep
        exact ⟨t, single hstep (fun _ => nofun), ⟨hidle.trans hinvocation, hsignalled⟩, hfeeds.ge⟩
  | entered =>
      obtain ⟨t, hrun, habout, hfeeds⟩ := finish_entered hs hstuck hinvocation
      exact ⟨t, hrun, habout, by omega⟩
  | handling calls event handled =>
      obtain ⟨t, hrun, habout, hfeeds⟩ := finish_invocation hinvocation hstuck.pending_ne
      exact ⟨t, hrun, habout, by omega⟩

theorem not_quiesces_of_stuck (hs : eventMachine.Reachable s) (hstuck : Stuck s.heading s.pending) :
    ¬ Quiesces s := by
  rintro ⟨n, hbound⟩
  obtain ⟨t, hrun, habout, hfeeds⟩ := stuck_returns hs hstuck
  obtain ⟨u, hrun', -, hfed⟩ :=
    refeed_often (hrun.reachable_startedAt hs) (stuck_run hs hstuck hrun) habout (n + 1)
  have := hbound u (hrun.trans_startedAt hrun')
  omega

/-- Wherever the calls end, the handler stops feeding its signal exactly if the requests that are left
are not stuck. -/
theorem quiesces_iff (hs : eventMachine.Reachable s) :
    Quiesces s ↔ ¬ Stuck s.heading s.pending :=
  ⟨fun hquiesces hstuck => not_quiesces_of_stuck hs hstuck hquiesces, quiesces_of_not_stuck hs⟩

/-- The state that these steps lead to from the start. -/
def reached (es : List SignalEvent) : EventLoop :=
  (Machine.replay (fun _ _ => true) step initial es).getD initial

theorem reached_reachable (es : List SignalEvent) : eventMachine.Reachable (reached es) :=
  Machine.ReachableBy.replay_getD (fun _ _ _ => trivial) (fun _ _ _ h => h) (.init rfl) es

theorem quiesces_iff_start : Quiesces (reached [.fetchOr .start]) ↔
    ¬ Stuck (reached [.fetchOr .start]).heading (reached [.fetchOr .start]).pending :=
  quiesces_iff (reached_reachable _)

/-- A reannounce before the first start is never cleared. -/
theorem reannounce_starves : ¬ ∀ s, eventMachine.Reachable s → Quiesces s := by
  intro h
  exact not_quiesces_of_stuck (reached_reachable [.fetchOr .reannounce]) (by decide)
    (h _ (reached_reachable [.fetchOr .reannounce]))

/-! ### Which call comes last -/

/-- The active flag that these requests lead to, between invocations. An invocation tests for a start
first, and a start that meets an active manager stays set. -/
def leadsTo (active : Bool) (requests : BitVec 8) : Bool :=
  if active then has requests startMask || !has requests shutdownMask
  else has requests startMask && !has requests shutdownMask

theorem leadsTo_conclude (active : Bool) (requests : BitVec 8) :
    leadsTo (conclude Call.tests requests 0 active).1
        (requests &&& ~~~(conclude Call.tests requests 0 active).2) =
      leadsTo active requests := by
  revert active requests
  decide +kernel

/-- No invocation is in progress, and another one would leave the flag as it is. -/
def Settled (s : EventLoop) : Prop :=
  s.invocation = .idle ∧ (conclude Call.tests s.set 0 s.active).1 = s.active

theorem leadsTo_of_settled (hs : s.Settled) : leadsTo s.heading s.pending = s.active := by
  rw [heading_of_idle hs.1, pending_of_idle hs.1]
  have hflag : ∀ (active : Bool) (requests : BitVec 8),
      (conclude Call.tests requests 0 active).1 = active → leadsTo active requests = active := by
    decide
  exact hflag _ _ hs.2

/-- No invocation is in progress, and no signal is on its way. -/
def Processed (s : EventLoop) : Prop :=
  s.invocation = .idle ∧ s.signalled = false ∧ s.sending = 0

instance (s : EventLoop) : Decidable s.Processed := by
  unfold Processed
  infer_instance

theorem Processed.settled (hprocessed : s.Processed) (hs : eventMachine.Reachable s) : s.Settled := by
  obtain ⟨hidle, hsignalled, hsending⟩ := hprocessed
  have hset : s.set = 0 := by
    by_contra hset
    rcases (attended hs).noticed hidle hset with h | h
    · rw [hsignalled] at h
      cases h
    · omega
  refine ⟨hidle, ?_⟩
  rw [hset]
  cases s.active <;> decide

/-- The call that sets the bit `own` is kept: the manager is headed where the call wants it, and stays
there when the bit is cleared along with others; or the bit is not cleared with them, and no request of
the other kind comes with it. -/
def Keeps (s : EventLoop) (own other : BitVec 8) (wanted : Bool) : Prop :=
  if s.heading = wanted then has s.clearing own → ¬ has s.pending other
  else ¬ has s.clearing own ∧ ¬ has s.pending other

/-- A step that loses no start and no shutdown. -/
def Lands (s : EventLoop) : SignalEvent → Prop
  | .fetchOr .start => s.Keeps startMask shutdownMask true
  | .fetchOr .shutdown => s.Keeps shutdownMask startMask false
  | _ => True

instance (s : EventLoop) (e : SignalEvent) : Decidable (s.Lands e) := by
  unfold Lands Keeps
  split <;> infer_instance

theorem has_startMask (requests : BitVec 8) : has requests startMask = requests.getLsbD 0 := by
  revert requests
  decide

theorem has_shutdownMask (requests : BitVec 8) : has requests shutdownMask = requests.getLsbD 3 := by
  revert requests
  decide

theorem getLsbD_pending (s : EventLoop) (i : Nat) (hi : i < 8) :
    s.pending.getLsbD i = (s.set.getLsbD i && !s.clearing.getLsbD i) := by
  rw [pending, BitVec.getLsbD_and, BitVec.getLsbD_not, decide_eq_true hi, Bool.true_and]

theorem getLsbD_pending_fetchOr {call : Call} (h : s.step (.fetchOr call) = some s') (i : Nat)
    (hi : i < 8) :
    s'.pending.getLsbD i =
      ((s.set.getLsbD i || call.mask.getLsbD i) && !s.clearing.getLsbD i) := by
  obtain ⟨-, hclearing, hset, -⟩ := fetchOr_spec h
  rw [getLsbD_pending s' i hi, hclearing, hset, BitVec.getLsbD_or]

theorem keeps_start_iff (h : s.step (.fetchOr .start) = some s') :
    s.Keeps startMask shutdownMask true ↔ leadsTo s'.heading s'.pending = true := by
  rw [Keeps, leadsTo, (fetchOr_spec h).1, has_startMask, has_startMask, has_shutdownMask,
    has_shutdownMask, getLsbD_pending_fetchOr h 0 (by decide),
    getLsbD_pending_fetchOr h 3 (by decide), getLsbD_pending s 3 (by decide),
    show Call.start.mask.getLsbD 0 = true by decide, show Call.start.mask.getLsbD 3 = false by decide]
  cases s.heading <;> cases s.set.getLsbD 3 <;> cases s.clearing.getLsbD 0 <;>
    cases s.clearing.getLsbD 3 <;> simp

theorem keeps_shutdown_iff (h : s.step (.fetchOr .shutdown) = some s') :
    s.Keeps shutdownMask startMask false ↔ leadsTo s'.heading s'.pending = false := by
  rw [Keeps, leadsTo, (fetchOr_spec h).1, has_startMask, has_startMask, has_shutdownMask,
    has_shutdownMask, getLsbD_pending_fetchOr h 0 (by decide),
    getLsbD_pending_fetchOr h 3 (by decide), getLsbD_pending s 0 (by decide),
    show Call.shutdown.mask.getLsbD 0 = false by decide,
    show Call.shutdown.mask.getLsbD 3 = true by decide]
  cases s.heading <;> cases s.set.getLsbD 0 <;> cases s.clearing.getLsbD 0 <;>
    cases s.clearing.getLsbD 3 <;> simp

/-- The two other calls ask for neither. -/
theorem leadsTo_fetchOr {call : Call} (h : s.step (.fetchOr call) = some s')
    (hstart : call.mask.getLsbD 0 = false) (hshutdown : call.mask.getLsbD 3 = false) :
    leadsTo s'.heading s'.pending = leadsTo s.heading s.pending := by
  rw [leadsTo, leadsTo, (fetchOr_spec h).1, has_startMask, has_startMask, has_shutdownMask,
    has_shutdownMask, getLsbD_pending_fetchOr h 0 (by decide),
    getLsbD_pending_fetchOr h 3 (by decide), getLsbD_pending s 0 (by decide),
    getLsbD_pending s 3 (by decide), hstart, hshutdown, Bool.or_false, Bool.or_false]

/-- The requests lead to what the last call asked for. -/
def Heeded (s : EventLoop) : Prop :=
  leadsTo s.heading s.pending = true ↔ s.lastCall = some .start

theorem Heeded.step (hs : Heeded s) (hlands : s.Lands e) (h : s.step e = some s') : Heeded s' := by
  cases e with
  | fetchOr call =>
      obtain ⟨-, -, -, hlast⟩ := fetchOr_spec h
      rw [Heeded, hlast]
      cases call with
      | start => exact iff_of_true ((keeps_start_iff h).mp hlands) rfl
      | shutdown =>
          refine iff_of_false ?_ nofun
          rw [(keeps_shutdown_iff h).mp hlands]
          exact Bool.false_ne_true
      | reannounce =>
          rw [leadsTo_fetchOr h (by decide) (by decide)]
          exact hs
      | forceReannounce =>
          rw [leadsTo_fetchOr h (by decide) (by decide)]
          exact hs
  | send =>
      obtain ⟨hheading, hpending, -, hlast, -⟩ := send_spec h
      rwa [Heeded, hheading, hpending, hlast]
  | enter =>
      obtain ⟨hheading, hpending, -, hlast, -⟩ := enter_spec h
      rwa [Heeded, hheading, hpending, hlast]
  | load =>
      obtain ⟨hheading, hpending, -, hlast, -⟩ := load_spec h
      rwa [Heeded, hheading, hpending, hlast, leadsTo_conclude]
  | test =>
      obtain ⟨hheading, hpending, -, hlast, -⟩ := test_spec h
      rwa [Heeded, hheading, hpending, hlast]
  | fetchAnd =>
      obtain ⟨hheading, hpending, -, -, hlast, -⟩ := fetchAnd_spec h
      rwa [Heeded, hheading, hpending, hlast]

theorem heeded (h : eventMachine.ReachableBy Lands s) : Heeded s := by
  refine h.invariant Heeded ?_ fun s e s' _ hs hlands hstep => hs.step hlands hstep
  rintro s rfl
  exact iff_of_false (by decide) nofun

/-- In a run that loses no call, the active flag of a settled state is what the last call of start and
shutdown asked for. -/
theorem active_eq_lastCall (h : eventMachine.ReachableBy Lands s) (hsettled : s.Settled) :
    s.active = true ↔ s.lastCall = some .start := by
  rw [← leadsTo_of_settled hsettled]
  exact heeded h

/-- The steps of one call, and those of one invocation. -/
def callSteps (call : Call) : List SignalEvent := [.fetchOr call, .send]

def invocationSteps : List SignalEvent := [.enter, .load, .test, .test, .test, .test, .fetchAnd]

/-- The state after a start that is handled, every step of which loses no call. -/
def started : EventLoop :=
  (Machine.replay (fun s e => s.Lands e) step initial (callSteps .start ++ invocationSteps)).getD initial

theorem started_lands : eventMachine.ReachableBy Lands started :=
  Machine.ReachableBy.replay_getD (fun _ _ h => of_decide_eq_true h) (fun _ _ _ h => h) (.init rfl) _

theorem active_eq_lastCall_started : started.lastCall = some .start ∧
    (started.active = true ↔ started.lastCall = some .start) :=
  ⟨by decide, active_eq_lastCall started_lands (Processed.settled (by decide) started_lands.reachable)⟩

/-- A start after a shutdown is lost when one invocation sees both bits. -/
theorem start_lost : ¬ ∀ s, eventMachine.Reachable s → s.Processed →
    (s.active = true ↔ s.lastCall = some .start) := by
  intro h
  have hlost := h (reached (callSteps .start ++ callSteps .shutdown ++ callSteps .start ++
    invocationSteps)) (reached_reachable _) (by decide)
  exact absurd hlost (by decide)

end EventLoop

end TorrentEngine
