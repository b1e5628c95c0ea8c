import TorrentEngine.PeerReachable

/-! The rounds of `round_robin_establisher_scheduler`: what one turn of its loops can do, that the loop ends
and after how many visits. Nothing here depends on what the pool and the map of peers hold. -/

open Transition

namespace TorrentEngine

/-! ### Spots and their flags -/

namespace Spot

/-- The spot that is visited after this one. -/
def next : Spot → Spot
  | .discovered => .disconnected
  | .disconnected => .failed
  | .failed => .discovered

/-- Where the manager stands in the loop of the scheduler of this spot. -/
def loop : Spot → Control
  | .discovered => .discovering
  | .disconnected => .reconnecting
  | .failed => .retrying

/-- The flag in `empties`. -/
def flag (empties : Bool × Bool × Bool) : Spot → Bool
  | .discovered => empties.1
  | .disconnected => empties.2.1
  | .failed => empties.2.2

theorem next_next_next (spot : Spot) : spot.next.next.next = spot := by cases spot <;> rfl

theorem loop_ne_eventLoop (spot : Spot) : spot.loop ≠ .eventLoop := by cases spot <;> decide

theorem loop_ne_establishing (spot : Spot) : spot.loop ≠ .establishing := by cases spot <;> decide

theorem next_ne (spot : Spot) : spot.next ≠ spot := by cases spot <;> decide

theorem next_next_ne (spot : Spot) : spot.next.next ≠ spot := by cases spot <;> decide

theorem eq_or_next (spot other : Spot) : other = spot ∨ other = spot.next ∨ other = spot.next.next := by
  cases spot <;> cases other <;> decide

theorem flag_eq_true_iff (empties : Bool × Bool × Bool) :
    empties = (true, true, true) ↔ ∀ spot, flag empties spot = true := by
  obtain ⟨e₀, e₁, e₂⟩ := empties
  constructor
  · intro h spot
    rw [h]
    cases spot <;> rfl
  · intro h
    have h₀ : e₀ = true := h .discovered
    have h₁ : e₁ = true := h .disconnected
    have h₂ : e₂ = true := h .failed
    rw [h₀, h₁, h₂]

end Spot

namespace World

variable {w w₁ w₂ w' : World} {i : ConnectionSlot} {infoHash : Vector Byte 20} {spot : Spot}
  {calls : TurnCalls}

/-- The flag of a spot. -/
def emptyFlag (w : World) (spot : Spot) : Bool := Spot.flag w.empties spot

/-- How many entries wait in the queue of a spot. -/
def entriesAt (w : World) : Spot → Nat
  | .discovered => w.cache.size
  | .disconnected => w.disconnects.length
  | .failed => w.retryQueue.length

/-- The scheduler of this spot has something to try. -/
def Offers (w : World) (spot : Spot) : Prop :=
  0 < w.entriesAt spot ∧ (spot = .discovered → w.pool.available ≠ 0)

/-- Nothing connectable is left. -/
def NothingLeft (w : World) : Prop :=
  w.disconnects = [] ∧ w.retryQueue = [] ∧ (w.cache.isEmpty = true ∨ w.pool.available = 0)

theorem nothingLeft_iff (w : World) : w.NothingLeft ↔ ∀ spot, ¬ w.Offers spot := by
  have hcache : w.cache.isEmpty = true ↔ w.entriesAt .discovered = 0 := beq_iff_eq
  have hdisconnects : w.disconnects = [] ↔ w.entriesAt .disconnected = 0 := List.length_eq_zero_iff.symm
  have hretries : w.retryQueue = [] ↔ w.entriesAt .failed = 0 := List.length_eq_zero_iff.symm
  rw [NothingLeft, hdisconnects, hretries, hcache]
  constructor
  · rintro ⟨h₁, h₂, h₀⟩ spot ⟨hpos, havailable⟩
    cases spot with
    | discovered => exact h₀.elim (fun h => by omega) (havailable rfl)
    | disconnected => omega
    | failed => omega
  · intro h
    refine ⟨?_, ?_, ?_⟩
    · exact Nat.eq_zero_of_not_pos fun hpos => h .disconnected ⟨hpos, Spot.noConfusion⟩
    · exact Nat.eq_zero_of_not_pos fun hpos => h .failed ⟨hpos, Spot.noConfusion⟩
    · by_cases havailable : w.pool.available = 0
      · exact Or.inr havailable
      · exact Or.inl (Nat.eq_zero_of_not_pos fun hpos => h .discovered ⟨hpos, fun _ => havailable⟩)

/-! ### What the establisher does with an answer -/

section Returns

variable (w) (found : Bool)

@[simp] theorem current_schedulerReturns : (w.schedulerReturns found).current = w.current.next := by
  unfold schedulerReturns
  cases w.current <;> rfl

@[simp] theorem entriesAt_schedulerReturns : (w.schedulerReturns found).entriesAt = w.entriesAt := by
  funext spot
  unfold schedulerReturns
  cases w.current <;> cases spot <;> rfl

@[simp] theorem statistics_schedulerReturns :
    (w.schedulerReturns found).statistics = w.statistics := by
  unfold schedulerReturns
  cases w.current <;> rfl

theorem emptyFlag_schedulerReturns (spot : Spot) : (w.schedulerReturns found).emptyFlag spot =
    if spot = w.current then !found else w.emptyFlag spot := by
  unfold schedulerReturns emptyFlag
  obtain ⟨e₀, e₁, e₂⟩ := w.empties
  cases w.current <;> cases spot <;> rfl

theorem emptyFlag_schedulerReturns_self : (w.schedulerReturns found).emptyFlag w.current = !found := by
  rw [emptyFlag_schedulerReturns, if_pos rfl]

theorem emptyFlag_schedulerReturns_next :
    (w.schedulerReturns found).emptyFlag w.current.next = w.emptyFlag w.current.next := by
  rw [emptyFlag_schedulerReturns, if_neg w.current.next_ne]

theorem emptyFlag_schedulerReturns_next_next :
    (w.schedulerReturns found).emptyFlag w.current.next.next = w.emptyFlag w.current.next.next := by
  rw [emptyFlag_schedulerReturns, if_neg w.current.next_next_ne]

/-- The loop breaks when all three flags are set. -/
theorem control_schedulerReturns : (w.schedulerReturns found).control =
    if found = false ∧ w.emptyFlag w.current.next = true ∧ w.emptyFlag w.current.next.next = true then
      .eventLoop else .establishing := by
  have hcontrol : (w.schedulerReturns found).control =
      if (w.schedulerReturns found).empties = (true, true, true) then .eventLoop else .establishing := by
    unfold schedulerReturns
    cases w.current <;> rfl
  rw [hcontrol]
  refine if_congr ?_ rfl rfl
  rw [Spot.flag_eq_true_iff]
  constructor
  · intro h
    refine ⟨?_, ?_, ?_⟩
    · have hself := h w.current
      rw [← emptyFlag, emptyFlag_schedulerReturns_self] at hself
      exact (Bool.not_eq_true' found).mp hself
    · rw [← emptyFlag_schedulerReturns_next w found]
      exact h w.current.next
    · rw [← emptyFlag_schedulerReturns_next_next w found]
      exact h w.current.next.next
  · rintro ⟨rfl, hnext, hlast⟩ spot
    rcases w.current.eq_or_next spot with h | h | h
    · rw [h]
      exact emptyFlag_schedulerReturns_self w false
    · rw [h]
      exact (emptyFlag_schedulerReturns_next w false).trans hnext
    · rw [h]
      exact (emptyFlag_schedulerReturns_next_next w false).trans hlast

end Returns

/-! ### A turn of a scheduler's loop -/

/-- One entry is taken from the queue of the spot that is visited. -/
structure Consumes (w w' : World) : Prop where
  current : w'.current = w.current
  empties : w'.empties = w.empties
  own : w'.entriesAt w.current + 1 = w.entriesAt w.current
  others : ∀ spot, spot ≠ w.current → w'.entriesAt spot = w.entriesAt spot

/-- What a turn of the loop of a scheduler does, when its system calls return these. -/
inductive Visited (calls : ConnectCalls) (w : World) : World → Prop
  /-- The queue is empty, and the scheduler returns. -/
  | nothing : w.entriesAt w.current = 0 → Visited calls w (w.schedulerReturns false)
  /-- An entry is taken and leads to no connection. -/
  | dropped (w' : World) : Consumes w w' → w'.control = w.control →
      w'.statistics.inboundInflight = w.statistics.inboundInflight →
      (w.pool.available ≠ 0 → w'.pool.available ≠ 0) → Visited calls w w'
  /-- An entry is taken, a connection is started for it on a new socket, and the scheduler returns. -/
  | started (w' : World) : Consumes w w' → calls.socket.fd? ≠ none →
      w'.statistics.inboundInflight = w.statistics.inboundInflight + 1 →
      (w.pool.available = 0 → w'.pool.available = 0) → Visited calls w (w'.schedulerReturns true)

namespace Consumes

/-- The entry is a contact from the cache. -/
theorem discovered (hspot : w.current = .discovered) (hcurrent : w'.current = w.current)
    (hempties : w'.empties = w.empties) (hcache : w'.cache.size + 1 = w.cache.size)
    (hdisconnects : w'.disconnects = w.disconnects) (hretries : w'.retryQueue = w.retryQueue) :
    Consumes w w' := by
  refine ⟨hcurrent, hempties, ?_, fun spot hother => ?_⟩
  · rw [hspot]
    exact hcache
  · cases spot with
    | discovered => exact absurd hspot.symm hother
    | disconnected => exact congrArg List.length hdisconnects
    | failed => exact congrArg List.length hretries

theorem disconnected {d : DisconnectUpdate} {ds : List DisconnectUpdate}
    (hspot : w.current = .disconnected) (hqueue : w.disconnects = d :: ds)
    (hcurrent : w'.current = w.current) (hempties : w'.empties = w.empties)
    (hcache : w'.cache = w.cache) (hdisconnects : w'.disconnects = ds)
    (hretries : w'.retryQueue = w.retryQueue) : Consumes w w' := by
  refine ⟨hcurrent, hempties, ?_, fun spot hother => ?_⟩
  · rw [hspot, entriesAt, entriesAt, hqueue, hdisconnects, List.length_cons]
  · cases spot with
    | discovered => exact congrArg OverwritableCache.size hcache
    | disconnected => exact absurd hspot.symm hother
    | failed => exact congrArg List.length hretries

theorem failed {r : PeerFailureUpdate} {rs : List PeerFailureUpdate} (hspot : w.current = .failed)
    (hqueue : w.retryQueue = r :: rs) (hcurrent : w'.current = w.current)
    (hempties : w'.empties = w.empties) (hcache : w'.cache = w.cache)
    (hdisconnects : w'.disconnects = w.disconnects) (hretries : w'.retryQueue = rs) : Consumes w w' := by
  refine ⟨hcurrent, hempties, ?_, fun spot hother => ?_⟩
  · rw [hspot, entriesAt, entriesAt, hqueue, hretries, List.length_cons]
  · cases spot with
    | discovered => exact congrArg OverwritableCache.size hcache
    | disconnected => exact congrArg List.length hdisconnects
    | failed => exact absurd hspot.symm hother

end Consumes

/-- Only peers, descriptors and the record of failed assertions differ. -/
def Touched (w w' : World) : Prop := ∃ object kernel failedAssertions,
  w' = { w with pool := { w.pool with object }, kernel, failedAssertions }

namespace Touched

theorem trans (h : Touched w w₁) (h' : Touched w₁ w₂) : Touched w w₂ := by
  obtain ⟨object, kernel, failedAssertions, rfl⟩ := h
  obtain ⟨object', kernel', failedAssertions', rfl⟩ := h'
  exact ⟨object', kernel', failedAssertions', rfl⟩

theorem check (w : World) (a : Assertion) (holds : Bool) : Touched w (w.check a holds) := ⟨_, _, _, rfl⟩

theorem setPeer (w : World) (i : ConnectionSlot) (p : PeerConnection) : Touched w (w.setPeer i p) :=
  ⟨_, _, _, rfl⟩

theorem openFd (w : World) (fd : Fd) : Touched w (w.openFd fd) := ⟨_, _, _, rfl⟩

theorem closeFd (w : World) (socket : Option Fd) : Touched w (w.closeFd socket) := ⟨_, _, _, rfl⟩

theorem connect (w : World) (i : ConnectionSlot) (calls : ConnectCalls) :
    Touched w (w.connect i calls).1 := by
  let w₀ := w.check .connectSource ((w.peer i).source == .tracker)
  have hchecked : Touched w w₀ := check w _ _
  have houtcome := connect_outcome w i calls
  generalize w.connect i calls = result at houtcome ⊢
  cases houtcome with
  | refused perrno => exact hchecked.trans (setPeer w₀ i _)
  | closed fd => exact ((hchecked.trans (openFd w₀ fd)).trans (closeFd _ _)).trans (setPeer _ i _)
  | connected fd => exact (hchecked.trans (openFd w₀ fd)).trans (setPeer _ i _)
  | inprogress fd => exact (hchecked.trans (openFd w₀ fd)).trans (setPeer _ i _)

end Touched

theorem connect_opened {calls : ConnectCalls} (h : (w.connect i calls).2 = true) :
    calls.socket.fd? ≠ none := by
  have houtcome := connect_outcome w i calls
  generalize w.connect i calls = result at h houtcome
  cases houtcome with
  | refused perrno => cases h
  | closed fd => cases h
  | connected fd perrno hcalls =>
      rw [hcalls]
      exact Option.some_ne_none fd
  | inprogress fd perrno hcalls =>
      rw [hcalls]
      exact Option.some_ne_none fd

/-- The attempt to connect that follows on an entry taken. -/
theorem afterInitiate_visited (hconsumes : Consumes w w₁) (hcontrol : w₁.control = w.control)
    (hinflight : w₁.statistics.inboundInflight = w.statistics.inboundInflight)
    (hroom : w.statistics.inboundInflight < 35) (hfull : w.pool.available = 0 → w₁.pool.available = 0)
    (i : ConnectionSlot) (calls : ConnectCalls) :
    Visited calls w (afterInitiate i (w₁.initiateConnect i calls)) := by
  have htouched := Touched.connect w₁ i calls
  have hopened := @connect_opened w₁ i calls
  unfold initiateConnect
  generalize w₁.connect i calls = result at htouched hopened ⊢
  obtain ⟨w₂, started⟩ := result
  obtain ⟨object, kernel, failedAssertions, rfl⟩ := htouched
  cases started with
  | true =>
      refine .started _ ⟨hconsumes.current, hconsumes.empties, hconsumes.own, hconsumes.others⟩
        (hopened rfl) ?_ hfull
      show SizeT.inc w₁.statistics.inboundInflight = _
      rw [hinflight, SizeT.inc_of_lt (by omega)]
  | false =>
      exact .dropped _ ⟨hconsumes.current, hconsumes.empties, hconsumes.own, hconsumes.others⟩ hcontrol
        hinflight fun _ => Nat.succ_ne_zero _

theorem discoveredTurn_visited (hcurrent : w.current = .discovered)
    (hroom : w.statistics.inboundInflight < 35) (havailable : w.pool.available ≠ 0)
    (calls : ConnectCalls) : Visited calls w (w.discoveredTurn calls) := by
  unfold discoveredTurn OverwritableCache.freshPop
  by_cases hempty : w.cache.isEmpty = true
  · rw [if_pos hempty]
    refine .nothing ?_
    rw [hcurrent]
    exact beq_iff_eq.mp hempty
  · rw [if_neg hempty]
    have hsize : w.cache.size - 1 + 1 = w.cache.size :=
      Nat.succ_pred_eq_of_ne_zero fun hzero => hempty (beq_iff_eq.mpr hzero)
    simp only
    unfold schedulePeer
    split
    · rename_i hnone
      exact absurd hnone (SlotPool.acquire_ne_none havailable)
    · rename_i x pool hacquire
      split
      · exact .dropped _ (.discovered hcurrent rfl rfl hsize rfl rfl) rfl rfl fun _ => Nat.succ_ne_zero _
      · apply afterInitiate_visited
        · exact .discovered hcurrent rfl rfl hsize rfl rfl
        · rfl
        · rfl
        · exact hroom
        · exact fun hzero => absurd hzero havailable

theorem disconnectedTurn_visited (hcurrent : w.current = .disconnected)
    (hroom : w.statistics.inboundInflight < 35) (calls : ConnectCalls) :
    Visited calls w (w.disconnectedTurn calls) := by
  unfold disconnectedTurn
  split
  · rename_i hqueue
    refine .nothing ?_
    rw [hcurrent, entriesAt, hqueue, List.length_nil]
  · rename_i d ds hqueue
    simp only
    split
    · exact .dropped _ (.disconnected hcurrent hqueue rfl rfl rfl rfl rfl) rfl rfl id
    · split
      · exact .dropped _ (.disconnected hcurrent hqueue rfl rfl rfl rfl rfl) rfl rfl
          fun _ => Nat.succ_ne_zero _
      · apply afterInitiate_visited
        · exact .disconnected hcurrent hqueue rfl rfl rfl rfl rfl
        · rfl
        · rfl
        · exact hroom
        · exact id

theorem failedTurn_visited (hcurrent : w.current = .failed)
    (hroom : w.statistics.inboundInflight < 35) (calls : ConnectCalls) :
    Visited calls w (w.failedTurn calls) := by
  unfold failedTurn
  split
  · rename_i hqueue
    refine .nothing ?_
    rw [hcurrent, entriesAt, hqueue, List.length_nil]
  · rename_i r rs hqueue
    simp only
    split
    · exact .dropped _ (.failed hcurrent hqueue rfl rfl rfl rfl rfl) rfl rfl id
    · apply afterInitiate_visited
      · exact .failed hcurrent hqueue rfl rfl rfl rfl rfl
      · rfl
      · rfl
      · exact hroom
      · exact id

/-! ### A turn of the establisher -/

/-- The manager is in `round_robin_establisher_scheduler`, or has just left it. -/
inductive InRound (w : World) : Prop
  | returned : w.control = .eventLoop → InRound w
  | head : w.control = .establishing → InRound w
  | visiting : w.control = w.current.loop → w.statistics.inboundInflight < 35 →
      (w.current = .discovered → w.pool.available ≠ 0) → InRound w

/-- What a turn of `round_robin_establisher_scheduler` or of a loop in it does. -/
inductive RoundTurn (calls : TurnCalls) (w : World) : World → Prop
  | full : w.control = .establishing → 35 ≤ w.statistics.inboundInflight →
      RoundTurn calls w { w with control := .eventLoop }
  /-- The pool is full, and the scheduler for discovered peers returns at once. -/
  | declined : w.control = .establishing → w.statistics.inboundInflight < 35 →
      w.current = .discovered → w.pool.available = 0 → RoundTurn calls w (w.schedulerReturns false)
  | enters : w.control = .establishing → w.statistics.inboundInflight < 35 →
      (w.current = .discovered → w.pool.available ≠ 0) →
      RoundTurn calls w { w with control := w.current.loop }
  | visits (w' : World) : w.control = w.current.loop → w.statistics.inboundInflight < 35 →
      (w.current = .discovered → w.pool.available ≠ 0) → Visited calls.connect w w' → RoundTurn calls w w'

theorem establisherTurn_round (hcontrol : w.control = .establishing) (calls : TurnCalls) :
    RoundTurn calls w w.establisherTurn := by
  unfold establisherTurn
  split
  · rename_i hroom
    cases hcurrent : w.current with
    | discovered =>
        simp only
        split
        · rename_i hzero
          exact .declined hcontrol hroom hcurrent hzero
        · rename_i havailable
          have henters := @RoundTurn.enters calls w hcontrol hroom fun _ => havailable
          rw [hcurrent] at henters
          exact henters
    | disconnected =>
        have henters := @RoundTurn.enters calls w hcontrol hroom fun h =>
          Spot.noConfusion (hcurrent.symm.trans h)
        rw [hcurrent] at henters
        exact henters
    | failed =>
        have henters := @RoundTurn.enters calls w hcontrol hroom fun h =>
          Spot.noConfusion (hcurrent.symm.trans h)
        rw [hcurrent] at henters
        exact henters
  · rename_i hfull
    exact .full hcontrol (Nat.le_of_not_lt hfull)

/-- **One turn**, from the head of the loop or in the loop of a scheduler. -/
theorem turn_round (h : InRound w) (hcontrol : w.control ≠ .eventLoop) (calls : TurnCalls) :
    ∃ w', w.turn calls = some w' ∧ RoundTurn calls w w' := by
  cases h with
  | returned hreturned => exact absurd hreturned hcontrol
  | head hhead =>
      refine ⟨w.establisherTurn, ?_, establisherTurn_round hhead calls⟩
      rw [turn, hhead]
  | visiting hvisiting hroom havailable =>
      cases hcurrent : w.current with
      | discovered =>
          have hloop : w.control = .discovering := by rw [hvisiting, hcurrent]; rfl
          refine ⟨w.discoveredTurn calls.connect, ?_, .visits _ hvisiting hroom havailable ?_⟩
          · rw [turn, hloop]
          · exact discoveredTurn_visited hcurrent hroom (havailable hcurrent) calls.connect
      | disconnected =>
          have hloop : w.control = .reconnecting := by rw [hvisiting, hcurrent]; rfl
          refine ⟨w.disconnectedTurn calls.connect, ?_, .visits _ hvisiting hroom havailable ?_⟩
          · rw [turn, hloop]
          · exact disconnectedTurn_visited hcurrent hroom calls.connect
      | failed =>
          have hloop : w.control = .retrying := by rw [hvisiting, hcurrent]; rfl
          refine ⟨w.failedTurn calls.connect, ?_, .visits _ hvisiting hroom havailable ?_⟩
          · rw [turn, hloop]
          · exact failedTurn_visited hcurrent hroom calls.connect

theorem inRound_schedulerReturns (w : World) (found : Bool) : InRound (w.schedulerReturns found) := by
  have hcontrol := control_schedulerReturns w found
  split at hcontrol
  · exact .returned hcontrol
  · exact .head hcontrol

theorem RoundTurn.inRound (h : RoundTurn calls w w') : InRound w' := by
  cases h with
  | full => exact .returned rfl
  | declined => exact inRound_schedulerReturns w false
  | enters _ hroom havailable => exact .visiting rfl hroom havailable
  | visits _ hcontrol hroom havailable hvisited =>
      cases hvisited with
      | nothing => exact inRound_schedulerReturns w false
      | dropped _ hconsumes hsame hinflight hkept =>
          refine .visiting ?_ ?_ fun hcurrent => ?_
          · rw [hsame, hconsumes.current]
            exact hcontrol
          · rw [hinflight]
            exact hroom
          · exact hkept (havailable (hconsumes.current.symm.trans hcurrent))
      | started u => exact inRound_schedulerReturns u true

/-! ### How long the loop goes on -/

/-- The visits until the loop breaks, when none finds anything. -/
def remaining (w : World) : Nat :=
  if w.emptyFlag w.current.next.next = true then if w.emptyFlag w.current.next = true then 1 else 2 else 3

theorem remaining_pos (w : World) : 0 < w.remaining := by
  unfold remaining
  split
  · split <;> omega
  · omega

theorem remaining_le (w : World) : w.remaining ≤ 3 := by
  unfold remaining
  split
  · split <;> omega
  · omega

/-- The room for connections, counted in rounds, with the visits that need not find anything. -/
def allowance (w : World) : Nat := 3 * (35 - w.statistics.inboundInflight) + w.remaining

/-- How often the head of the loop may still be reached. -/
def headsLeft (w : World) : Nat :=
  if w.control = .eventLoop then 0
  else if w.control = .establishing then w.allowance else w.allowance - 1

/-- The entries in the three queues. -/
def backlog (w : World) : Nat := w.entriesAt .discovered + w.entriesAt .disconnected + w.entriesAt .failed

/-- What falls with every turn. -/
def rank (w : World) : Nat :=
  2 * w.headsLeft + (if w.control = .eventLoop ∨ w.control = .establishing then 0 else 1) + w.backlog

theorem Consumes.backlog (h : Consumes w w') : w'.backlog + 1 = w.backlog := by
  have hown := h.own
  have hothers := h.others
  unfold World.backlog
  cases hcurrent : w.current with
  | discovered =>
      rw [hcurrent] at hown hothers
      have h₁ := hothers .disconnected (by decide)
      have h₂ := hothers .failed (by decide)
      omega
  | disconnected =>
      rw [hcurrent] at hown hothers
      have h₀ := hothers .discovered (by decide)
      have h₂ := hothers .failed (by decide)
      omega
  | failed =>
      rw [hcurrent] at hown hothers
      have h₀ := hothers .discovered (by decide)
      have h₁ := hothers .disconnected (by decide)
      omega

theorem backlog_schedulerReturns (w : World) (found : Bool) :
    (w.schedulerReturns found).backlog = w.backlog := by
  simp only [World.backlog, entriesAt_schedulerReturns]

theorem Consumes.allowance (h : Consumes w w')
    (hinflight : w'.statistics.inboundInflight = w.statistics.inboundInflight) :
    w'.allowance = w.allowance := by
  unfold World.allowance World.remaining World.emptyFlag
  rw [hinflight, h.current, h.empties]

/-- A visit in vain is one of those that were allowed for, or the last. -/
theorem allowance_returns_false (w : World) : (w.schedulerReturns false).control = .eventLoop ∨
    (w.schedulerReturns false).control = .establishing ∧
      (w.schedulerReturns false).allowance + 1 ≤ w.allowance := by
  have hremaining : (w.schedulerReturns false).remaining =
      if w.emptyFlag w.current.next.next = true then 1 else 2 := by
    rw [remaining, current_schedulerReturns, Spot.next_next_next, emptyFlag_schedulerReturns_self,
      emptyFlag_schedulerReturns_next_next]
    rfl
  rw [control_schedulerReturns]
  unfold allowance
  rw [hremaining, statistics_schedulerReturns, remaining]
  cases w.emptyFlag w.current.next.next with
  | false => exact Or.inr ⟨by simp, by simp⟩
  | true =>
      cases w.emptyFlag w.current.next with
      | false => exact Or.inr ⟨by simp, by simp⟩
      | true => exact Or.inl (by simp)

/-- After a connection was started, no flag is stale. -/
theorem returns_true (w : World) : (w.schedulerReturns true).control = .establishing ∧
    (w.schedulerReturns true).emptyFlag (w.schedulerReturns true).current.next.next = false := by
  constructor
  · rw [control_schedulerReturns, if_neg fun h => Bool.noConfusion h.1]
  · rw [current_schedulerReturns, Spot.next_next_next, emptyFlag_schedulerReturns_self]
    rfl

theorem headsLeft_head (hcontrol : w.control = .establishing) : w.headsLeft = w.allowance := by
  rw [headsLeft, hcontrol]
  rfl

theorem headsLeft_visiting (hcontrol : w.control = w.current.loop) :
    w.headsLeft = w.allowance - 1 := by
  rw [headsLeft, hcontrol, if_neg w.current.loop_ne_eventLoop, if_neg w.current.loop_ne_establishing]

theorem headsLeft_returned (hcontrol : w.control = .eventLoop) : w.headsLeft = 0 := by
  rw [headsLeft, if_pos hcontrol]

theorem allowance_pos (w : World) : 0 < w.allowance := Nat.add_pos_right _ w.remaining_pos

theorem headsLeft_returns_false (w : World) : (w.schedulerReturns false).headsLeft + 1 ≤ w.allowance := by
  rcases allowance_returns_false w with hcontrol | ⟨hcontrol, hle⟩
  · rw [headsLeft_returned hcontrol]
    exact w.allowance_pos
  · rw [headsLeft_head hcontrol]
    exact hle

theorem headsLeft_returns_true {u : World} (hroom : w.statistics.inboundInflight < 35)
    (hinflight : u.statistics.inboundInflight = w.statistics.inboundInflight + 1) :
    (u.schedulerReturns true).headsLeft + 1 ≤ w.allowance := by
  obtain ⟨hcontrol, -⟩ := returns_true u
  rw [headsLeft_head hcontrol, allowance, allowance, statistics_schedulerReturns, hinflight]
  have hle := remaining_le (u.schedulerReturns true)
  have hpos := w.remaining_pos
  omega

/-- **Each turn at the head uses up one of the heads that are left.** -/
theorem RoundTurn.headsLeft_le (h : RoundTurn calls w w') :
    w'.headsLeft + (if w.control = .establishing then 1 else 0) ≤ w.headsLeft := by
  cases h with
  | full hhead _ =>
      rw [if_pos hhead, headsLeft_head hhead, headsLeft_returned rfl]
      exact w.allowance_pos
  | declined hhead _ _ _ =>
      rw [if_pos hhead, headsLeft_head hhead]
      exact headsLeft_returns_false w
  | enters hhead _ _ =>
      rw [if_pos hhead, headsLeft_head hhead, headsLeft_visiting rfl]
      exact Nat.le_of_eq (Nat.succ_pred_eq_of_pos w.allowance_pos)
  | visits _ hcontrol hroom _ hvisited =>
      have hnot : w.control ≠ .establishing := by
        rw [hcontrol]
        exact w.current.loop_ne_establishing
      rw [if_neg hnot, headsLeft_visiting hcontrol]
      cases hvisited with
      | nothing => exact Nat.le_pred_of_lt (headsLeft_returns_false w)
      | dropped _ hconsumes hsame hinflight _ =>
          have hvisiting : w'.control = w'.current.loop := by rw [hsame, hconsumes.current, hcontrol]
          rw [headsLeft_visiting hvisiting, hconsumes.allowance hinflight]
          exact Nat.le_refl _
      | started _ _ _ hinflight _ => exact Nat.le_pred_of_lt (headsLeft_returns_true hroom hinflight)

/-- **Every turn lowers the rank.** -/
theorem RoundTurn.rank_lt (h : RoundTurn calls w w') : w'.rank < w.rank := by
  have hheads := h.headsLeft_le
  unfold rank
  cases h with
  | full hhead _ =>
      rw [if_pos hhead] at hheads
      have hbacklog : World.backlog { w with control := .eventLoop } = w.backlog := rfl
      rw [if_pos (Or.inl rfl), if_pos (Or.inr hhead), hbacklog]
      omega
  | declined hhead _ _ _ =>
      rw [if_pos hhead] at hheads
      rw [if_pos (Or.inr hhead), backlog_schedulerReturns]
      split <;> omega
  | enters hhead _ _ =>
      rw [if_pos hhead] at hheads
      have hbacklog : World.backlog { w with control := w.current.loop } = w.backlog := rfl
      rw [if_pos (Or.inr hhead), hbacklog]
      split <;> omega
  | visits _ hvisiting _ _ hvisited =>
      have hnot : ¬ (w.control = .eventLoop ∨ w.control = .establishing) := by
        rw [hvisiting]
        exact not_or.mpr ⟨w.current.loop_ne_eventLoop, w.current.loop_ne_establishing⟩
      rw [if_neg fun hhead => hnot (Or.inr hhead)] at hheads
      rw [if_neg hnot]
      cases hvisited with
      | nothing =>
          have hreturned : (w.schedulerReturns false).control = .eventLoop ∨
              (w.schedulerReturns false).control = .establishing :=
            (allowance_returns_false w).imp_right And.left
          rw [if_pos hreturned, backlog_schedulerReturns]
          omega
      | dropped _ hconsumes hsame _ _ =>
          have hbacklog := hconsumes.backlog
          rw [hsame, if_neg hnot]
          omega
      | started u hconsumes _ _ _ =>
          have hbacklog := hconsumes.backlog
          rw [if_pos (Or.inr (returns_true u).1), backlog_schedulerReturns]
          omega

/-- The state after this many turns, when their system calls return these and no other thread acts. -/
def looped (w : World) (calls : Nat → TurnCalls) : Nat → World
  | 0 => w
  | n + 1 => ((w.looped calls n).turn (calls n)).getD (w.looped calls n)

/-- How often the head of the `for` loop was reached in this many turns. -/
def iterations (w : World) (calls : Nat → TurnCalls) : Nat → Nat
  | 0 => 0
  | n + 1 => w.iterations calls n + if (w.looped calls n).control = .establishing then 1 else 0

theorem turn_eventLoop (hcontrol : w.control = .eventLoop) (calls : TurnCalls) : w.turn calls = none := by
  rw [turn, hcontrol]

theorem looped_succ (calls : Nat → TurnCalls) (n : Nat) (h : InRound (w.looped calls n))
    (hcontrol : (w.looped calls n).control ≠ .eventLoop) :
    RoundTurn (calls n) (w.looped calls n) (w.looped calls (n + 1)) := by
  obtain ⟨w', hturn, hround⟩ := turn_round h hcontrol (calls n)
  have heq : w.looped calls (n + 1) = w' := by rw [looped, hturn, Option.getD_some]
  rw [heq]
  exact hround

theorem looped_returned (calls : Nat → TurnCalls) (n : Nat)
    (hcontrol : (w.looped calls n).control = .eventLoop) : w.looped calls (n + 1) = w.looped calls n := by
  rw [looped, turn_eventLoop hcontrol, Option.getD_none]

/-- The loop never reaches its head more often than it may. -/
theorem looped_inRound (h : InRound w) (calls : Nat → TurnCalls) (n : Nat) :
    InRound (w.looped calls n) ∧
      w.iterations calls n + (w.looped calls n).headsLeft ≤ w.headsLeft := by
  induction n with
  | zero => exact ⟨h, by rw [iterations, looped, Nat.zero_add]⟩
  | succ n ih =>
      obtain ⟨hround, hle⟩ := ih
      by_cases hcontrol : (w.looped calls n).control = .eventLoop
      · have hne : (w.looped calls n).control ≠ .establishing := by
          rw [hcontrol]
          exact Control.noConfusion
        rw [looped_returned calls n hcontrol, iterations, if_neg hne]
        exact ⟨hround, hle⟩
      · have hturn := looped_succ calls n hround hcontrol
        have hheads := hturn.headsLeft_le
        refine ⟨hturn.inRound, ?_⟩
        rw [iterations]
        omega

/-- **The establisher ends**, whatever the queues hold and the attempts return, after at most three visits for
each connection there is room for and three more. A turn in between takes an entry from the queue that is
visited, or finds it empty and returns, and it starts at most one connection, with which it returns. -/
theorem establisher_terminates (hcontrol : w.control = .establishing) (calls : Nat → TurnCalls) :
    ∃ n, (w.looped calls n).control = .eventLoop ∧
      w.iterations calls n ≤ 3 * (35 - w.statistics.inboundInflight) + 3 ∧
      ∀ k < n, (w.looped calls k).control = .establishing ∨
        (w.looped calls k).control = (w.looped calls k).current.loop ∧
          Visited (calls k).connect (w.looped calls k) (w.looped calls (k + 1)) := by
  have hround := looped_inRound (.head hcontrol) calls
  have hends : ∃ n, (w.looped calls n).control = .eventLoop :=
    Machine.exists_final_index (w.looped calls) (fun u => u.control = .eventLoop) rank
      fun n hgoes => (looped_succ calls n (hround n).1 hgoes).rank_lt
  refine ⟨Nat.find hends, Nat.find_spec hends, ?_, fun k hk => ?_⟩
  · have hheads := (hround (Nat.find hends)).2
    have hallowed := w.remaining_le
    rw [headsLeft_head hcontrol, allowance] at hheads
    omega
  · have hturn := looped_succ calls k (hround k).1 (Nat.find_min hends hk)
    generalize w.looped calls (k + 1) = next at hturn ⊢
    cases hturn with
    | full hhead => exact Or.inl hhead
    | declined hhead => exact Or.inl hhead
    | enters hhead => exact Or.inl hhead
    | visits _ hvisiting _ _ hvisited => exact Or.inr ⟨hvisiting, hvisited⟩

/-- A contact was drained into the cache, and the daemon was woken for it. -/
def wokenWorld : World :=
  afterRun ([.discover (sampleStore 80).contact, .drainDiscovered] ++
    List.replicate 2 (.turn idleCalls) ++ [.runDaemon])

theorem establisher_terminates_woken :
    ∃ n, (wokenWorld.looped (fun _ => idleCalls) n).control = .eventLoop ∧
      wokenWorld.iterations (fun _ => idleCalls) n ≤ 108 := by
  have hroom : wokenWorld.statistics.inboundInflight = 0 := by decide +kernel
  have hcontrol : wokenWorld.control = .establishing := by decide +kernel
  obtain ⟨n, hends, hiterations, -⟩ := establisher_terminates hcontrol fun _ => idleCalls
  rw [hroom] at hiterations
  exact ⟨n, hends, hiterations⟩

end World

end TorrentEngine
