import TorrentEngine.Library.RangeLoop
import TorrentEngine.TrackerSpace

/-! The range loops of `reannounce_event`, `force_reannounce_event` and `shutdown_event`. The end of the
vector is read once, before the first turn, and every tracker that is handed over shortens the vector by
one. A loop that hands over a tracker before its last turn so reads past the end. What it finds there is
what the vector held at first, and each tracker is handed over once all the same. -/

open Transition SwapRemoval

namespace TorrentEngine

open Bencode Tracker

/-- The handlers that remove elements of the manager space while they go through it. -/
inductive RemovalLoop where
  | reannounce
  | forceReannounce
  | shutdown
  deriving DecidableEq

namespace RemovalLoop

def call : RemovalLoop → Call
  | .reannounce => .reannounce
  | .forceReannounce => .forceReannounce
  | .shutdown => .shutdown

/-- One turn. -/
def body : RemovalLoop → TrackerWorld → ByteString → TrackerWorld
  | .reannounce => TrackerWorld.reannounceTracker
  | .forceReannounce => TrackerWorld.forceReannounceTracker
  | .shutdown => TrackerWorld.shutdownTracker

/-- The test of the loop. `shutdown_event` has none. -/
def Selects : RemovalLoop → Tracker → Prop
  | .reannounce, tracker => tracker.Reannounced
  | .forceReannounce, tracker => tracker.state = .active
  | .shutdown, _ => True

instance (loop : RemovalLoop) : DecidablePred loop.Selects := fun tracker =>
  match loop with
  | .reannounce => inferInstanceAs (Decidable tracker.Reannounced)
  | .forceReannounce => inferInstanceAs (Decidable (tracker.state = .active))
  | .shutdown => inferInstanceAs (Decidable True)

/-- What it makes of a tracker in the manager space. -/
def acts : RemovalLoop → Life → Life
  | .reannounce => Life.reannounced
  | .forceReannounce => Life.forced
  | .shutdown => Life.shutDown

/-- The tracker passes the test now. -/
def Eligible (loop : RemovalLoop) (w : TrackerWorld) (name : ByteString) : Prop :=
  ∃ tracker ∈ w.find name, loop.Selects tracker

instance (loop : RemovalLoop) (w : TrackerWorld) : DecidablePred (loop.Eligible w) := fun name =>
  decidable_of_iff ((w.find name).any fun tracker => loop.Selects tracker) (by
    simp only [Eligible, Option.any_eq_true, decide_eq_true_eq, Option.mem_def])

/-- The turns of the loop. -/
def turns (loop : RemovalLoop) (w : TrackerWorld) : List (Visit TrackerWorld ByteString) :=
  visits TrackerWorld.space loop.body w.space.length 0 w.space w

end RemovalLoop

namespace TrackerWorld

variable {w w' : TrackerWorld} {name n : ByteString} {a : Life} {tracker : Tracker} {loop : RemovalLoop}

/-! ### The turns and the handlers -/

theorem sweep_eq_visits (body : TrackerWorld → ByteString → TrackerWorld) (turns i : Nat)
    (cells : List ByteString) (w : TrackerWorld) :
    sweep body turns i cells w =
      (visits space body turns i cells w).foldl (fun _ visit => visit.after) w := by
  induction turns generalizing i cells w with
  | zero => rfl
  | succ turns ih =>
      rw [sweep, visits]
      cases cells[i]? with
      | none => exact ih _ _ w
      | some name =>
          rw [List.foldl_cons]
          exact ih _ _ _

/-- The handler of the event leaves what its last turn leaves. -/
theorem handle_eq_turns (loop : RemovalLoop) (w : TrackerWorld) :
    w.handle loop.call = some ((loop.turns w).foldl (fun _ visit => visit.after) w) := by
  have hhandle : w.handle loop.call = some (w.overManagerSpace loop.body) := by
    cases loop with
    | reannounce => rfl
    | forceReannounce => rfl
    | shutdown => rfl
  rw [hhandle, overManagerSpace, sweep_eq_visits]
  rfl

/-! ### One turn -/

@[simp] theorem space_change (w : TrackerWorld) (name : ByteString) (f : Tracker → Tracker) :
    (w.change name f).space = w.space := by
  obtain ⟨_, heq⟩ := change_eq w name f
  rw [heq]
  rfl

@[simp] theorem space_check (w : TrackerWorld) (c : TrackerCheck) (expected : Prop) [Decidable expected] :
    (w.check c expected).space = w.space := by
  unfold check
  split
  · rfl
  · rfl

@[simp] theorem space_addRequest (w : TrackerWorld) (name : ByteString) :
    (w.addRequest name).space = w.space := by
  unfold addRequest
  split
  · split
    · rfl
    · rfl
  · rfl

theorem find_check (w : TrackerWorld) (c : TrackerCheck) (expected : Prop) [Decidable expected] :
    (w.check c expected).find name = w.find name := by
  unfold check
  split
  · rfl
  · rfl

theorem isSome_find_change (f : Tracker → Tracker) (h : (w.find n).isSome) :
    ((w.change name f).find n).isSome := by
  rw [find_change]
  split
  · rw [Option.isSome_map]
    exact h
  · exact h

/-- Whatever index the tracker has, the vector becomes shorter by one. -/
theorem length_space_sendToProtocolSpace (h : (w.find name).isSome) :
    (w.sendToProtocolSpace name).space.length = w.space.length - 1 := by
  obtain ⟨tracker, hfind⟩ := Option.isSome_iff_exists.mp h
  unfold sendToProtocolSpace
  dsimp only
  rw [space_check, find_check, hfind]
  cases hlast : w.space.getLast? with
  | none =>
      rw [List.getLast?_eq_none_iff] at hlast
      dsimp only
      rw [space_check, hlast]
      rfl
  | some last =>
      dsimp only
      rw [space_change, space_check]
      exact length_removeAt w.space _

/-- A tracker that does not pass the test is left alone. -/
theorem body_of_not_eligible (loop : RemovalLoop) (w : TrackerWorld) (name : ByteString)
    (hnot : ¬ loop.Eligible w name) : loop.body w name = w := by
  cases hfind : w.find name with
  | none =>
      cases loop with
      | reannounce => simp only [RemovalLoop.body, reannounceTracker, hfind]
      | forceReannounce => simp only [RemovalLoop.body, forceReannounceTracker, hfind]
      | shutdown => simp only [RemovalLoop.body, shutdownTracker, hfind]
  | some tracker =>
      have hunselected : ¬ loop.Selects tracker := fun hsel => hnot ⟨tracker, hfind, hsel⟩
      cases loop with
      | reannounce =>
          rw [RemovalLoop.body, reannounceTracker, hfind]
          exact if_neg hunselected
      | forceReannounce =>
          rw [RemovalLoop.body, forceReannounceTracker, hfind]
          exact if_neg hunselected
      | shutdown => exact absurd trivial hunselected

theorem length_space_body (loop : RemovalLoop) (w : TrackerWorld) (name : ByteString)
    (hsel : loop.Eligible w name) : (loop.body w name).space.length = w.space.length - 1 := by
  obtain ⟨tracker, hfind, hselects⟩ := hsel
  have hsome : (w.find name).isSome := Option.isSome_of_mem hfind
  rw [Option.mem_def] at hfind
  cases loop with
  | reannounce =>
      have hreannounced : tracker.Reannounced := hselects
      rw [RemovalLoop.body, reannounceTracker, hfind]
      dsimp only
      rw [if_pos hreannounced, space_addRequest, length_space_sendToProtocolSpace, space_change, space_check]
      apply isSome_find_change
      rw [find_check]
      exact hsome
  | forceReannounce =>
      have hactive : tracker.state = .active := hselects
      rw [RemovalLoop.body, forceReannounceTracker, hfind]
      dsimp only
      rw [if_pos hactive, space_addRequest, length_space_sendToProtocolSpace, space_change, space_change]
      apply isSome_find_change
      exact isSome_find_change _ hsome
  | shutdown =>
      have hsent : ((w.change name (disarm .maximum)).sendToProtocolSpace name).space.length =
          w.space.length - 1 := by
        rw [length_space_sendToProtocolSpace (isSome_find_change _ hsome), space_change]
      rw [RemovalLoop.body, shutdownTracker, hfind]
      dsimp only
      split
      · exact hsent
      · split
        · rw [space_addRequest, space_change]
          exact hsent
        · rw [space_addRequest]
          exact hsent

theorem body_shortens (loop : RemovalLoop) : Shortens space loop.body loop.Eligible where
  skip := body_of_not_eligible loop
  shorten := length_space_body loop

/-! ### Every tracker once -/

/-- In the manager space a tracker that passes the test is handed over, and no other is touched. -/
theorem body_turn (loop : RemovalLoop) (h : Placed w) (hlife : w.life name = some a)
    (hin : a.place = .space) (hproto : a.tracker.currentProto = .http) :
    Turn (fun _ => True) w (loop.body w name) name (loop.acts a) := by
  cases loop with
  | reannounce => exact reannounceTracker_turn h hlife hin hproto fun _ _ => trivial
  | forceReannounce => exact forceReannounceTracker_turn h hlife hin hproto
  | shutdown => exact shutdownTracker_turn h hlife hin hproto

/-- Only a tracker that is left alone stays in the manager space. -/
theorem acts_eq (loop : RemovalLoop) (hin : (loop.acts a).place = .space) : loop.acts a = a := by
  cases loop with
  | reannounce =>
      rw [RemovalLoop.acts, Life.reannounced] at hin ⊢
      split at hin
      · cases hin
      · rename_i hnot
        exact if_neg hnot
  | forceReannounce =>
      rw [RemovalLoop.acts, Life.forced] at hin ⊢
      split at hin
      · cases hin
      · rename_i hnot
        exact if_neg hnot
  | shutdown => exact absurd hin (shutDown_place a)

theorem selects_congr {tracker' : Tracker} (h : tracker.unplaced = tracker') :
    loop.Selects tracker ↔ loop.Selects tracker' := by
  cases loop with
  | reannounce => exact reannounced_congr h
  | forceReannounce =>
      rw [RemovalLoop.Selects, RemovalLoop.Selects, state_congr h]
  | shutdown => exact Iff.rfl

theorem eligible_iff_life : loop.Eligible w name ↔ ∃ a, w.life name = some a ∧ loop.Selects a.tracker := by
  constructor
  · rintro ⟨tracker, hfind, hsel⟩
    exact ⟨_, life_of_find hfind, (selects_congr rfl).mp hsel⟩
  · rintro ⟨a, hlife, hsel⟩
    obtain ⟨tracker, hfind, htracker, -⟩ := life_eq_some.mp hlife
    exact ⟨tracker, hfind, (selects_congr htracker).mpr hsel⟩

/-- The bookkeeping is right, and the trackers of the manager space have their urls. -/
def Announceable (w : TrackerWorld) : Prop :=
  Placed w ∧ ∀ n a, w.life n = some a → a.place = .space → a.tracker.currentProto = .http

theorem Consistent.announceable (h : Consistent w) : Announceable w :=
  ⟨h.placed, fun _ _ hlife hin => h.http hlife hin⟩

theorem body_detaches (loop : RemovalLoop) : Detaches space loop.body loop.Eligible Announceable := by
  have hturn : ∀ w name, Announceable w → name ∈ w.space →
      ∃ a, Turn (fun _ => True) w (loop.body w name) name (loop.acts a) ∧ w.life name = some a ∧
        a.tracker.currentProto = .http := by
    intro w name h hmem
    obtain ⟨a, hlife, hin⟩ := h.1.life_of_mem hmem
    exact ⟨a, body_turn loop h.1 hlife hin (h.2 name a hlife hin), hlife, h.2 name a hlife hin⟩
  refine ⟨fun w h => h.1.nodup, fun w name h hmem => ?_, fun w name h hmem hsel => ?_,
    fun w name n h hmem hne => ?_⟩
  · obtain ⟨a, hturned, -, hproto⟩ := hturn w name h hmem
    refine ⟨hturned.placed, fun n b hlife hin => ?_⟩
    by_cases hn : n = name
    · subst hn
      cases hturned.acted.symm.trans hlife
      rw [acts_eq loop hin]
      exact hproto
    · exact h.2 n b ((hturned.others n hn).symm.trans hlife) hin
  · obtain ⟨a, hturned, -⟩ := hturn w name h hmem
    rcases hturned.moved with hkept | hmoved
    · have hshort := length_space_body loop w name hsel
      rw [hkept] at hshort
      have hpos := List.length_pos_of_mem hmem
      omega
    · exact hmoved
  · obtain ⟨a, hturned, -⟩ := hturn w name h hmem
    rw [eligible_iff_life, eligible_iff_life, hturned.others n hne]

/-- Each tracker that passes the test at first is handed over once, in the order of the manager space, also
where the loop reads past the end. -/
theorem handled_turns (loop : RemovalLoop) (h : Announceable w) :
    handled space (loop.turns w) = w.space.filter (loop.Eligible w) :=
  (body_shortens loop).handled_visits (body_detaches loop) h h.1.nodup (Sweep.start w.space)
    (Nat.zero_add _) fun _ _ _ _ => Iff.rfl

theorem count_filter_eligible (h : (w.space.filter (loop.Eligible w)).Nodup) (name : ByteString) :
    (w.space.filter (loop.Eligible w)).count name =
      if name ∈ w.space ∧ loop.Eligible w name then 1 else 0 := by
  rw [h.count]
  simp only [List.mem_filter, decide_eq_true_eq]

/-- In a careful run every tracker that passes the test is handed over once, and no other. -/
theorem handled_once {env : TrackerEnvironment} (h : (trackerMachine env).ReachableBy Careful w)
    (loop : RemovalLoop) (name : ByteString) :
    (handled space (loop.turns w)).count name =
      if name ∈ w.space ∧ loop.Eligible w name then 1 else 0 := by
  have hconsistent := consistent h
  rw [handled_turns loop hconsistent.announceable]
  apply count_filter_eligible
  exact hconsistent.placed.nodup.filter _

/-! ### Within the vector -/

/-- The loop reads only elements of the vector, and hands over each tracker once that is there and passes
the test at first, and no other. -/
structure IteratesSafely (loop : RemovalLoop) (w : TrackerWorld) : Prop where
  inBounds : ∀ visit ∈ loop.turns w, visit.InBounds space
  once : ∀ name, (handled space (loop.turns w)).count name =
    if name ∈ w.space ∧ loop.Eligible w name then 1 else 0

/-- **Iteration with removal.** A loop is safe exactly when no tracker passes its test but the last of the
manager space. For `shutdown_event` that is a manager space of at most one tracker. -/
theorem iteratesSafely_iff (loop : RemovalLoop) (w : TrackerWorld) :
    IteratesSafely loop w ↔ ∀ name ∈ w.space.dropLast, ¬ loop.Eligible w name := by
  have hspace : w.space.length = 0 + w.space.length := (Nat.zero_add _).symm
  have hbounds := (body_shortens loop).inBounds_iff hspace
  rw [List.drop_zero] at hbounds
  refine ⟨fun h => hbounds.mp h.inBounds, fun hfree => ⟨hbounds.mpr hfree, fun name => ?_⟩⟩
  have hhandled := (body_shortens loop).handled_of_free hspace (by rwa [List.drop_zero])
  rw [List.drop_zero] at hhandled
  rw [RemovalLoop.turns, hhandled]
  apply count_filter_eligible
  rcases List.eq_nil_or_concat w.space with hnil | ⟨others, last, hconcat⟩
  · rw [hnil]
    exact List.nodup_nil
  · rw [hconcat, List.concat_eq_append, List.dropLast_concat] at hfree
    have hothers : others.filter (loop.Eligible w) = [] :=
      List.filter_eq_nil_iff.mpr fun name hmem hsel => hfree name hmem (of_decide_eq_true hsel)
    rw [hconcat, List.concat_eq_append, List.filter_append, hothers, List.nil_append]
    exact (List.nodup_singleton last).sublist List.filter_sublist

/-- Both trackers have announced, and the handler of a call of `force_reannounce` is about to run. -/
def pastEndRun : List TrackerEvent :=
  announceRun ++ (handledCall .forceReannounce).take 6

/-- Its second turn reads the cell that its first turn has taken from the vector. -/
theorem iterates_pastEnd : ¬ ∀ w, (trackerMachine plainEnvironment).Reachable w → ∀ loop : RemovalLoop,
    w.running (.signal .test) = some loop.call → IteratesSafely loop w := by
  intro h
  have hrunning : (replayed (fun _ _ => true) pastEndRun).running (.signal .test) =
      some RemovalLoop.forceReannounce.call := by
    decide +kernel
  have hover : ¬ ∀ visit ∈ RemovalLoop.forceReannounce.turns (replayed (fun _ _ => true) pastEndRun),
      visit.InBounds space := by
    decide +kernel
  exact hover (h _ (replayed_reachable pastEndRun) .forceReannounce hrunning).inBounds

end TrackerWorld

end TorrentEngine
