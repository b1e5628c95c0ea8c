import TorrentEngine.TrackerMoves

/-! The manager space over whole runs. A tracker that `reannounce_event` hands over with its minimum timer
still armed is handed over a second time when that timer expires, and so is one that a start enters while
its request is outstanding. Otherwise the bookkeeping stays right. -/

open Transition SwapRemoval

namespace TorrentEngine

open Bencode Tracker

namespace TrackerWorld

variable {env : TrackerEnvironment} {w w' : TrackerWorld} {e : TrackerEvent} {name n : ByteString}
  {a a' : Life}

/-! ### Timers -/

theorem elapse_active (time : Rat) (timer : EvTimer) : (timer.elapse time).active = timer.active := by
  rw [EvTimer.elapse]
  split
  · rfl
  · rfl

theorem elapse_after {time : Rat} {timer : EvTimer} (h : timer.active = true) :
    (timer.elapse time).after = timer.after - time := by
  rw [EvTimer.elapse, if_pos h]

theorem timer_elapse_active (time : Rat) (tracker : Tracker) (which : TimerName) :
    ((tracker.elapse time).timer which).active = (tracker.timer which).active := by
  cases which
  · exact elapse_active time _
  · exact elapse_active time _

/-- A tracker without timers needs only its url. -/
theorem sound_of_unarmed (hhttp : a.place ≠ .neither → a.tracker.currentProto = .http)
    (hunarmed : ∀ which, (a.tracker.timer which).active = false) : Sound a where
  http := hhttp
  unarmed _ := hunarmed
  minimum hmin := Bool.noConfusion ((hunarmed .minimum).symm.trans hmin)
  both harmed := Bool.noConfusion ((hunarmed .minimum).symm.trans (harmed .minimum))

/-- In the manager space a tracker without a minimum timer needs only its url. -/
theorem sound_of_free (hin : a.place = .space) (hhttp : a.tracker.currentProto = .http)
    (hmin : a.tracker.timers.minimum.active = false) : Sound a where
  http _ := hhttp
  unarmed hne := absurd hin hne
  minimum harmed := Bool.noConfusion (hmin.symm.trans harmed)
  both harmed := Bool.noConfusion (hmin.symm.trans (harmed .minimum))

theorem unarmed_of_both {tracker : Tracker} (hmin : tracker.timers.minimum.active = false)
    (hmax : tracker.timers.maximum.active = false) (which : TimerName) :
    (tracker.timer which).active = false := by
  cases which
  · exact hmin
  · exact hmax

/-- The timer that does not expire is not armed when the other one ends in an announce. -/
theorem Sound.other_unarmed (hs : Sound a) {which : TimerName} (hexpires : Expires a.tracker which)
    (hwaiting : ¬ a.tracker.Waiting) : (a.tracker.timer which.other).active = false := by
  by_contra hother
  rw [Bool.not_eq_false] at hother
  have harmed : ∀ which, (a.tracker.timer which).active = true := by
    intro any
    cases which <;> cases any
    · exact hexpires.1
    · exact hother
    · exact hother
    · exact hexpires.1
  exact hwaiting ⟨(hs.minimum (harmed .minimum)).1, hs.both harmed⟩

theorem Sound.answered {active : Bool} {body : Option (List Byte)} (hs : Sound a)
    (hprotocol : a.place = .protocol) (h : Answered active body a.tracker (some a')) : Sound a' := by
  have hunarmed : ∀ which, (a.tracker.timer which).active = false := hs.unarmed (ne_of_eq_of_ne hprotocol (by decide))
  cases h with
  | withoutPeers _ _ hkept =>
      exact sound_of_unarmed (fun hne => absurd rfl hne) fun which => by rw [hkept.timer, hunarmed]
  | reset _ _ _ hstopped => exact sound_of_unarmed (fun hne => absurd rfl hne) hstopped
  | @returned tracker' _ hrearmed =>
      have hproto := hrearmed.proto (hs.http (ne_of_eq_of_ne hprotocol (by decide)))
      cases htype : tracker'.timers.type with
      | one =>
          refine sound_of_free rfl hproto ?_
          rw [(hrearmed.one htype).1]
          exact hunarmed .minimum
      | two =>
          obtain ⟨hstate, hinterruptible, -⟩ := hrearmed.two htype
          exact ⟨fun _ => hproto, fun hne => absurd rfl hne, fun _ => ⟨htype, hstate⟩,
            fun _ => hinterruptible⟩

/-- After a request a minimum timer is armed only where the response asked for it. -/
theorem Answered.minimum {active : Bool} {body : Option (List Byte)}
    (hunarmed : ∀ which, (a.tracker.timer which).active = false)
    (h : Answered active body a.tracker (some a')) :
    a'.tracker.timers.minimum.active = false ∨
      (Rearmed body a.tracker a'.tracker ∧ a'.tracker.timers.type = .two) := by
  cases h with
  | withoutPeers _ _ hkept =>
      exact Or.inl ((congrArg EvTimer.active (congrFun hkept.timer .minimum)).trans (hunarmed .minimum))
  | reset _ _ _ hstopped => exact Or.inl (hstopped .minimum)
  | @returned tracker' _ hrearmed =>
      cases htype : tracker'.timers.type with
      | one =>
          refine Or.inl ?_
          rw [(hrearmed.one htype).1]
          exact hunarmed .minimum
      | two => exact Or.inr ⟨hrearmed, rfl⟩

/-- **Step lemma.** Every move keeps the timers right, but for an announce by `reannounce_event` to a
tracker whose minimum timer is armed. -/
theorem Moves.sound (h : Moves w e n a (some a')) (hs : Sound a)
    (hcareful : w.running e = some .reannounce → a.place = .space → a.tracker.Reannounced →
      a.tracker.timers.minimum.active = false) : Sound a' := by
  cases h with
  | stays => exact hs
  | elapses _ _ =>
      refine ⟨hs.http, fun hne which => ?_, fun hmin => ?_, fun harmed => ?_⟩
      · exact (timer_elapse_active _ _ which).trans (hs.unarmed hne which)
      · exact hs.minimum ((timer_elapse_active _ _ .minimum).symm.trans hmin)
      · exact hs.both fun which => (timer_elapse_active _ _ which).symm.trans (harmed which)
  | starts _ hneither hstarts =>
      rw [Starts] at hstarts
      split at hstarts
      · obtain ⟨idx, rfl⟩ := hstarts
        exact sound_of_free rfl rfl (hs.unarmed (ne_of_eq_of_ne hneither (by decide)) .minimum)
      · rwa [hstarts]
  | reannounces hrunning hin =>
      rw [Life.reannounced]
      split
      · rename_i heligible
        exact sound_of_unarmed (fun _ => hs.http_of_space hin)
          (unarmed_of_both (hcareful hrunning hin heligible) rfl)
      · exact hs
  | forces _ hin =>
      rw [Life.forced]
      split
      · exact sound_of_unarmed (fun _ => hs.http_of_space hin) (unarmed_of_both rfl rfl)
      · exact hs
  | shutsDown _ hin =>
      have hhttp := hs.http_of_space hin
      have hmin : a.tracker.state = .inactive ∨ a.tracker.timers.type ≠ .two →
          a.tracker.timers.minimum.active = false := by
        rintro hor
        by_contra harmed
        obtain ⟨htype, hstate⟩ := hs.minimum (Bool.not_eq_false _ ▸ harmed)
        rcases hor with hinactive | hone
        · cases hstate.symm.trans hinactive
        · exact hone htype
      rw [Life.shutDown]
      split
      · rename_i hinactive
        exact sound_of_unarmed (fun _ => hhttp) (unarmed_of_both (hmin (Or.inl hinactive)) rfl)
      · split
        · exact sound_of_unarmed (fun _ => hhttp) (unarmed_of_both rfl rfl)
        · rename_i hone
          exact sound_of_unarmed (fun _ => hhttp) (unarmed_of_both (hmin (Or.inr hone)) rfl)
  | @interrupts which _ hin _ _ =>
      have hhttp := hs.http_of_space hin
      cases which
      · exact sound_of_free rfl hhttp rfl
      · exact ⟨fun _ => hhttp, fun hne => absurd rfl hne, hs.minimum,
          fun harmed => Bool.noConfusion (harmed .maximum)⟩
  | @announces which _ hin hexpires hwaiting =>
      have hhttp := hs.http_of_space hin
      have hother := hs.other_unarmed hexpires hwaiting
      cases which
      · exact sound_of_unarmed (fun _ => hhttp) (unarmed_of_both rfl hother)
      · exact sound_of_unarmed (fun _ => hhttp) (unarmed_of_both hother rfl)
  | answers _ hprotocol hanswered => exact hs.answered hprotocol hanswered

/-! ### The first state -/

/-- A tracker that has not been announced to. -/
structure Untouched (tracker : Tracker) : Prop where
  state : tracker.state = .null
  timers : tracker.timers = ⟨0, ⟨false, 0⟩, 0, ⟨false, 0⟩, .one⟩

/-- The manager before the first start. -/
structure Initiated (manager : TrackerManager) : Prop where
  keys : (manager.trackerConnections.map Prod.fst).Nodup
  entries : ∀ entry ∈ manager.trackerConnections,
    entry.2.announceUrl.domainName = entry.1 ∧ Untouched entry.2
  space : manager.managerSpace = []
  active : manager.active = false

theorem Initiated.change {manager : TrackerManager} (h : Initiated manager) {f : Tracker → Tracker}
    (hdomain : ∀ tracker, (f tracker).announceUrl.domainName = tracker.announceUrl.domainName)
    (huntouched : ∀ tracker, Untouched tracker → Untouched (f tracker)) :
    Initiated (manager.change name f) := by
  have hkeys := @TrackerManager.keys_change manager name f
  rw [TrackerManager.change] at hkeys ⊢
  split at hkeys
  · exact h
  · rename_i tracker hfind
    obtain ⟨before, after, hsplit, -⟩ := List.lookup_eq_some_iff.mp hfind
    have hmem : (name, tracker) ∈ manager.trackerConnections := by
      rw [hsplit]
      exact List.mem_append_right _ List.mem_cons_self
    obtain ⟨hname, hfresh⟩ := h.entries _ hmem
    refine ⟨by rw [hkeys]; exact h.keys, fun entry hentry => ?_, h.space, h.active⟩
    obtain ⟨entry', hentry', heq⟩ := List.mem_map.mp hentry
    split at heq
    · rw [← heq]
      exact ⟨(hdomain tracker).trans hname, huntouched tracker hfresh⟩
    · rw [← heq]
      exact h.entries entry' hentry'

theorem Initiated.turn {manager manager' : TrackerManager} {url : ByteString} (h : Initiated manager)
    (hturn : manager.initiatlizeTracker url = some manager') : Initiated manager' := by
  rw [TrackerManager.initiatlizeTracker] at hturn
  obtain ⟨key, -, hrest⟩ := Option.bind_eq_some_iff.mp hturn
  rw [← Option.some.inj hrest]
  refine Initiated.change ?_ (fun _ => rfl) fun _ hfresh => ⟨hfresh.state, hfresh.timers⟩
  split
  · exact h
  · rename_i hnew
    rw [Option.not_isSome_iff_eq_none, List.lookup_eq_none_iff] at hnew
    refine ⟨?_, fun entry hentry => ?_, h.space, h.active⟩
    · dsimp only
      rw [List.map_append]
      refine h.keys.append (List.nodup_singleton key) (List.disjoint_singleton.mpr fun hkey => ?_)
      obtain ⟨entry, hentry, rfl⟩ := List.mem_map.mp hkey
      exact bne_iff_ne.mp (hnew entry hentry) rfl
    · rcases List.mem_append.mp hentry with hold | hlast
      · exact h.entries entry hold
      · rw [List.mem_singleton.mp hlast]
        exact ⟨rfl, rfl, rfl⟩

theorem initiatlizeTrackers_initiated {urls : List ByteString} {manager manager' : TrackerManager}
    (h : Initiated manager)
    (hurls : urls.foldlM TrackerManager.initiatlizeTracker manager = some manager') :
    Initiated manager' := by
  induction urls generalizing manager with
  | nil =>
      cases hurls
      exact h
  | cons url urls ih =>
      rw [List.foldlM_cons] at hurls
      obtain ⟨next, hturn, hrest⟩ := Option.bind_eq_some_iff.mp hurls
      exact ih (h.turn hturn) hrest

theorem init_initiated (h : (trackerMachine env).Init w) : Initiated w.manager ∧ w = initial w.manager := by
  obtain ⟨urls, manager, trackerConnections, hurls, hperm, rfl⟩ := h
  have hempty : Initiated ⟨false, [], [], [], false⟩ :=
    ⟨List.nodup_nil, fun _ hentry => absurd hentry List.not_mem_nil, rfl, rfl⟩
  have hinitiated := initiatlizeTrackers_initiated hempty hurls
  exact ⟨⟨(hperm.map Prod.fst).nodup_iff.mpr hinitiated.keys,
    fun entry hentry => hinitiated.entries entry (hperm.mem_iff.mp hentry), hinitiated.space,
    hinitiated.active⟩, rfl⟩

/-- What holds of the event system in all its runs holds of it within the manager. -/
theorem loop_reachable (h : (trackerMachine env).Reachable w) : eventMachine.Reachable w.loop := by
  refine h.invariant (fun w => eventMachine.Reachable w.loop) (fun w hinit => ?_) fun w e w' hw hstep => ?_
  · obtain ⟨hinitiated, heq⟩ := init_initiated hinit
    refine .init ?_
    rw [heq, loop, initial, show w.manager.active = false from hinitiated.active]
    rfl
  · rcases loop_step hstep with hsame | ⟨signal, -, hloop⟩
    · rw [hsame]
      exact hw
    · exact hw.step hloop

/-- At first every tracker is untouched and in neither place. -/
theorem init_spec (h : (trackerMachine env).Init w) :
    Placed w ∧ (∀ n a, w.life n = some a → a.place = .neither ∧ Untouched a.tracker) ∧
      w.space = [] ∧ w.requests = [] ∧ w.failedChecks = [] := by
  obtain ⟨hinitiated, heq⟩ := init_initiated h
  have hspace : w.space = [] := hinitiated.space
  have hrequests : w.requests = [] := by rw [heq, initial]
  have hchecks : w.failedChecks = [] := by rw [heq, initial]
  have hentry : ∀ n tracker, w.find n = some tracker →
      tracker.announceUrl.domainName = n ∧ Untouched tracker := by
    intro n tracker hfind
    obtain ⟨before, after, hsplit, -⟩ := List.lookup_eq_some_iff.mp hfind
    refine hinitiated.entries (n, tracker) ?_
    rw [hsplit]
    exact List.mem_append_right _ List.mem_cons_self
  refine ⟨⟨hinitiated.keys, fun n tracker hn => (hentry n tracker hn).1, by rw [hspace]; exact List.nodup_nil,
    fun i n hi => ?_, fun n hn => ?_⟩, fun n a hlife => ?_, hspace, hrequests, hchecks⟩
  · rw [hspace] at hi
    cases hi
  · rw [hspace] at hn
    cases hn
  · obtain ⟨tracker, hfind, htracker, hplace⟩ := life_eq_some.mp hlife
    obtain ⟨-, hstate, htimers⟩ := hentry n tracker hfind
    refine ⟨?_, ?_⟩
    · rw [← hplace, place_eq_neither, hspace, hrequests]
      exact ⟨List.not_mem_nil, List.not_mem_nil⟩
    · rw [← htracker]
      exact ⟨hstate, htimers⟩

theorem init_consistent (h : (trackerMachine env).Init w) : Consistent w := by
  obtain ⟨hplaced, huntouched, hspace, -⟩ := init_spec h
  refine ⟨hplaced, fun n a hlife => ?_, fun _ => hspace⟩
  obtain ⟨hneither, -, htimers⟩ := huntouched n a hlife
  exact sound_of_unarmed (fun hne => absurd hneither hne)
    (unarmed_of_both (by rw [htimers]) (by rw [htimers]))

/-! ### Runs -/

/-- No plain reannounce meets a tracker that it announces to while its minimum timer is armed, and no start
is handled while a request is outstanding. -/
structure Careful (w : TrackerWorld) (e : TrackerEvent) : Prop where
  reannounce : w.running e = some .reannounce → ∀ n ∈ w.space, ∀ tracker ∈ w.find n,
    tracker.Reannounced → tracker.timers.minimum.active = false
  start : w.running e = some .start → w.requests = []

instance (w : TrackerWorld) (e : TrackerEvent) : Decidable (Careful w e) :=
  decidable_of_iff ((w.running e = some .reannounce → ∀ n ∈ w.space, ∀ tracker ∈ w.find n,
    tracker.Reannounced → tracker.timers.minimum.active = false) ∧
      (w.running e = some .start → w.requests = [])) ⟨fun h => ⟨h.1, h.2⟩, fun h => ⟨h.1, h.2⟩⟩

theorem Consistent.step (h : Consistent w) (hcareful : Careful w e) (hstep : w.step env e = some w') :
    Consistent w' := by
  have hstepped := step_stepped h hcareful.start hstep
  refine ⟨hstepped.placed, fun n a' hlife' => ?_, hstepped.rests⟩
  obtain ⟨a, hlife, hmoves⟩ := hstepped.came hlife'
  refine hmoves.sound (h.sound n a hlife) fun hrunning hin heligible => ?_
  obtain ⟨tracker, hfind, htracker, -⟩ := life_eq_some.mp hlife
  have hmin := hcareful.reannounce hrunning n ((mem_space_iff hlife).mpr hin) tracker hfind
    ((reannounced_congr htracker).mpr heligible)
  rw [← htracker]
  exact hmin

theorem consistent (h : (trackerMachine env).ReachableBy Careful w) : Consistent w :=
  h.invariant Consistent (fun _ => init_consistent) fun _ _ _ _ hw hcareful hstep => hw.step hcareful hstep

/-- No event of a consistent world hands over a tracker that is not in the manager space. -/
theorem not_blames_handOver : ¬ Blames w e .handOver := by
  rintro (⟨-, n, a, -, -, hfails⟩ | ⟨-, hcheck, -⟩)
  · rcases hfails with ⟨hcheck, -⟩ | ⟨hcheck, -⟩
    · cases hcheck
    · cases hcheck
  · cases hcheck

/-- **Manager-space consistency**, in every run that is careful: the trackers in the manager space are
distinct and each at its index, and only trackers in it are handed over. -/
theorem managerSpace_consistent (h : (trackerMachine env).ReachableBy Careful w) :
    w.space.Nodup ∧
      (∀ i n, w.space[i]? = some n →
        ∃ tracker, w.find n = some tracker ∧ tracker.context.managerSpaceIdx = i) ∧
      TrackerCheck.handOver ∉ w.failedChecks := by
  have hplaced := (consistent h).placed
  refine ⟨hplaced.nodup, hplaced.indexed, ?_⟩
  have hboth : Consistent w ∧ TrackerCheck.handOver ∉ w.failedChecks := by
    refine h.invariant (fun w => Consistent w ∧ TrackerCheck.handOver ∉ w.failedChecks)
      (fun w hinit => ⟨init_consistent hinit, ?_⟩) fun w e w' _ hw hcareful hstep =>
        ⟨hw.1.step hcareful hstep, fun hfails => ?_⟩
    · rw [(init_spec hinit).2.2.2.2]
      exact List.not_mem_nil
    · rcases (step_stepped hw.1 hcareful.start hstep).checks _ hfails with hold | hblames
      · exact hw.2 hold
      · exact not_blames_handOver hblames
  exact hboth.2

/-! Two trackers, which ask for an interval of ten seconds and a minimum interval of a hundred. -/

def urlT : ByteString := .ofString "http://t:80/a"

def urlU : ByteString := .ofString "http://u:80/a"

def nameT : ByteString := .ofString "t"

def nameU : ByteString := .ofString "u"

def twoTrackers : TrackerWorld :=
  initial ((TrackerManager.initiatlizeTrackers [urlT, urlU]).getD ⟨false, [], [], [], false⟩)

theorem twoTrackers_init : (trackerMachine plainEnvironment).Init twoTrackers := by
  have hsome : (TrackerManager.initiatlizeTrackers [urlT, urlU]).isSome = true := by decide +kernel
  obtain ⟨manager, hmanager⟩ := Option.isSome_iff_exists.mp hsome
  refine ⟨[urlT, urlU], manager, manager.trackerConnections, hmanager, List.Perm.refl _, ?_⟩
  rw [twoTrackers, hmanager]
  rfl

/-- The world after these events. Where they cannot be taken, it stays. -/
def replayed (allowed : TrackerWorld → TrackerEvent → Bool) (es : List TrackerEvent) : TrackerWorld :=
  (Machine.replay allowed (step plainEnvironment) twoTrackers es).getD twoTrackers

theorem replayed_reachableBy {Good : TrackerWorld → TrackerEvent → Prop}
    {allowed : TrackerWorld → TrackerEvent → Bool} (hgood : ∀ w e, allowed w e → Good w e)
    (es : List TrackerEvent) : (trackerMachine plainEnvironment).ReachableBy Good (replayed allowed es) :=
  Machine.ReachableBy.replay_getD hgood (fun _ _ _ h => h) (.init twoTrackers_init) es

theorem replayed_reachable (es : List TrackerEvent) :
    (trackerMachine plainEnvironment).Reachable (replayed (fun _ _ => true) es) :=
  replayed_reachableBy (fun _ _ _ => trivial) es

/-- A call, and the invocation of `handle_event` that it brings about. -/
def handledCall (call : Call) : List TrackerEvent :=
  (EventLoop.callSteps call ++ EventLoop.invocationSteps).map .signal

/-- A response with one peer. -/
def intervalBody : List Byte :=
  "d8:intervali10e12:min intervali100e5:peers6:abcdefe".toList.map ascii

/-- Both trackers announce after a start. -/
def announceRun : List TrackerEvent :=
  handledCall .start ++
    [.elapse (1 / 10), .timerExpires nameT .maximum, .timerExpires nameU .maximum,
      .finished nameT (some intervalBody), .finished nameU (some intervalBody)]

theorem managerSpace_consistent_announced :
    (replayed (fun w e => decide (Careful w e)) announceRun).space = [nameT, nameU] ∧
      (replayed (fun w e => decide (Careful w e)) announceRun).space.Nodup ∧
        (∀ i n, (replayed (fun w e => decide (Careful w e)) announceRun).space[i]? = some n →
          ∃ tracker, (replayed (fun w e => decide (Careful w e)) announceRun).find n = some tracker ∧
            tracker.context.managerSpaceIdx = i) ∧
          TrackerCheck.handOver ∉ (replayed (fun w e => decide (Careful w e)) announceRun).failedChecks :=
  ⟨by decide +kernel, managerSpace_consistent (replayed_reachableBy (fun _ _ => of_decide_eq_true) _)⟩

/-- The maximum timer of one tracker expires first and makes it interruptible. -/
def interruptRun : List TrackerEvent :=
  announceRun ++ [.elapse 10, .timerExpires nameT .maximum]

/-- It is announced to again with its minimum timer armed, which then expires. -/
def handedOverTwiceRun : List TrackerEvent :=
  interruptRun ++ handledCall .reannounce ++ [.elapse 90, .timerExpires nameT .minimum]

/-- The other tracker is removed in its place. -/
theorem handedOver_twice : ¬ ∀ w, (trackerMachine plainEnvironment).Reachable w →
    w.space.Nodup ∧
      (∀ i n, w.space[i]? = some n →
        ∃ tracker, w.find n = some tracker ∧ tracker.context.managerSpaceIdx = i) ∧
      TrackerCheck.handOver ∉ w.failedChecks := by
  intro h
  have hfails : TrackerCheck.handOver ∈ (replayed (fun _ _ => true) handedOverTwiceRun).failedChecks := by
    decide +kernel
  exact (h _ (replayed_reachable handedOverTwiceRun)).2.2 hfails

end TrackerWorld

end TorrentEngine
