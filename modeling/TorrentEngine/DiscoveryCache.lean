import TorrentEngine.Library.BoundedDeque
import TorrentEngine.Library.CyclicCells
import TorrentEngine.PeerReachable
import TorrentEngine.PeerRounds

/-! The contacts that the trackers find wait in an `overwritable_cache`, which is a double-ended queue that
drops its stalest value when it is full; the manager counts them beside it. -/

open Transition CyclicCells BoundedDeque

namespace TorrentEngine

namespace OverwritableCache

variable {T : Type*} {N : Nat} {c : OverwritableCache T N} {items : List T}

/-- The cache holds these values, the stalest first. -/
structure Represents (c : OverwritableCache T N) (items : List T) : Prop where
  read_lt : c.read < N
  size_eq : c.size = items.length
  size_le : items.length ≤ N
  write_eq : c.write = (c.read + items.length) % N
  contents : (cells N c.read items.length).map c.cache = items

theorem initial_represents (hN : 0 < N) (value : T) : (initial N value).Represents [] where
  read_lt := hN
  size_eq := rfl
  size_le := Nat.zero_le N
  write_eq := (Nat.zero_mod N).symm
  contents := rfl

theorem plusMask_eq {num : Nat} (h : num < N) : plusMask N num = (num + 1) % N := by
  rw [plusMask]
  split
  · rename_i hlast
    rw [hlast, Nat.mod_self]
  · rename_i hlast
    exact (Nat.mod_eq_of_lt (by omega)).symm

theorem minusMask_succ (hN : 0 < N) (num : Nat) : minusMask N ((num + 1) % N) = num % N := by
  have hlt := Nat.mod_lt num hN
  rw [← Nat.mod_add_mod, ← plusMask_eq hlt, plusMask, minusMask]
  split
  · rename_i hlast
    rw [if_pos rfl]
    omega
  · rw [if_neg (Nat.succ_ne_zero _), Nat.add_sub_cancel]

namespace Represents

theorem isEmpty_iff (h : c.Represents items) : c.isEmpty = true ↔ items = [] := by
  rw [isEmpty, beq_iff_eq, h.size_eq]
  exact List.length_eq_zero_iff

theorem write_lt (h : c.Represents items) : c.write < N := by
  rw [h.write_eq]
  exact Nat.mod_lt _ (Nat.zero_lt_of_lt h.read_lt)

/-- **A push** appends, and drops the stalest value when the cache is full. -/
theorem push (h : c.Represents items) (val : T) : (c.push val).Represents (BoundedDeque.push N items val) := by
  have hread := h.read_lt
  have hN : 0 < N := Nat.zero_lt_of_lt hread
  have hwrite := h.write_eq
  have hnext : plusMask N c.write = (c.read + (items.length + 1)) % N := by
    rw [plusMask_eq h.write_lt, hwrite, Nat.mod_add_mod, Nat.add_assoc]
  have hbound := BoundedDeque.length_push hN h.size_le val
  rw [BoundedDeque.push] at hbound
  rw [OverwritableCache.push, BoundedDeque.push]
  dsimp only
  by_cases hroom : items.length < N
  · rw [if_pos hroom] at hbound
    rw [if_pos (h.size_eq.trans_lt hroom), if_pos hroom]
    refine ⟨hread, ?_, hbound, ?_, ?_⟩
    · rw [List.length_append, h.size_eq, List.length_singleton]
    · rw [List.length_append, List.length_singleton]
      exact hnext
    · rw [List.length_append, List.length_singleton]
      dsimp only
      rw [hwrite, map_update_end _ hroom, h.contents]
  · have hfull : items.length = N := Nat.le_antisymm h.size_le (Nat.le_of_not_lt hroom)
    obtain ⟨first, rest, rfl⟩ : ∃ first rest, items = first :: rest := by
      apply List.exists_cons_of_length_pos
      rw [hfull]
      exact hN
    rw [List.length_cons] at hfull
    have hsize : ¬ c.size < N := by
      rw [h.size_eq, List.length_cons, hfull]
      exact lt_irrefl N
    have hrest : (cells N (c.read + 1) rest.length).map c.cache = rest := by
      have hcontents := h.contents
      rw [List.length_cons, cells_succ_left, List.map_cons] at hcontents
      exact (List.cons.inj hcontents).2
    have hcell : c.write = (c.read + 1 + rest.length) % N := by
      rw [hwrite, List.length_cons, Nat.add_assoc, Nat.add_comm 1]
    rw [if_neg hroom, List.tail_cons] at hbound
    rw [if_neg hsize, if_neg hroom, List.tail_cons]
    refine ⟨?_, ?_, hbound, ?_, ?_⟩
    · dsimp only
      rw [plusMask_eq hread]
      exact Nat.mod_lt _ hN
    · rw [List.length_append, List.length_singleton]
      exact h.size_eq
    · dsimp only
      rw [List.length_append, List.length_singleton, hnext, List.length_cons, plusMask_eq hread,
        Nat.mod_add_mod]
      congr 1
      omega
    · dsimp only
      rw [List.length_append, List.length_singleton, plusMask_eq hread, cells_mod, hcell,
        map_update_end _ (by omega), hrest]

/-- **`stale_pop`** takes the oldest value. -/
theorem stalePop {first : T} {rest : List T} (h : c.Represents (first :: rest)) :
    ∃ c', c.stalePop = some (first, c') ∧ c'.Represents rest := by
  have hread := h.read_lt
  have hN : 0 < N := Nat.zero_lt_of_lt hread
  have hempty : ¬ c.isEmpty = true := fun hcase => List.cons_ne_nil _ _ (h.isEmpty_iff.mp hcase)
  have hcontents := h.contents
  rw [List.length_cons, cells_succ_left, List.map_cons, Nat.mod_eq_of_lt hread] at hcontents
  obtain ⟨hfirst, hrest⟩ := List.cons.inj hcontents
  rw [OverwritableCache.stalePop, if_neg hempty, hfirst]
  refine ⟨_, rfl, ?_, ?_, (Nat.le_succ _).trans h.size_le, ?_, ?_⟩
  · dsimp only
    rw [plusMask_eq hread]
    exact Nat.mod_lt _ hN
  · dsimp only
    rw [h.size_eq, List.length_cons, Nat.add_sub_cancel]
  · dsimp only
    rw [h.write_eq, List.length_cons, plusMask_eq hread, Nat.mod_add_mod]
    congr 1
    omega
  · dsimp only
    rw [plusMask_eq hread, cells_mod]
    exact hrest

/-- **`fresh_pop`** takes the most recent value. -/
theorem freshPop {front : List T} {last : T} (h : c.Represents (front ++ [last])) :
    ∃ c', c.freshPop = some (last, c') ∧ c'.Represents front := by
  have hread := h.read_lt
  have hN : 0 < N := Nat.zero_lt_of_lt hread
  have hlength : (front ++ [last]).length = front.length + 1 := by
    rw [List.length_append, List.length_singleton]
  have hempty : ¬ c.isEmpty = true := by
    rw [h.isEmpty_iff]
    exact List.append_ne_nil_of_right_ne_nil front (List.cons_ne_nil last [])
  have hwrite : minusMask N c.write = (c.read + front.length) % N := by
    rw [h.write_eq, hlength, ← Nat.add_assoc, minusMask_succ hN]
  have hcontents := h.contents
  rw [hlength, cells_succ, List.map_append, List.map_singleton] at hcontents
  obtain ⟨hfront, hlast⟩ := List.append_inj' hcontents rfl
  rw [OverwritableCache.freshPop, if_neg hempty]
  dsimp only
  rw [hwrite, (List.cons.inj hlast).1]
  refine ⟨_, rfl, hread, ?_, ?_, rfl, hfront⟩
  · dsimp only
    rw [h.size_eq, hlength, Nat.add_sub_cancel]
  · have hle := h.size_le
    rw [hlength] at hle
    exact (Nat.le_succ _).trans hle

theorem stalePop_none (h : c.Represents []) : c.stalePop = none := if_pos (h.isEmpty_iff.mpr rfl)

theorem freshPop_none (h : c.Represents []) : c.freshPop = none := if_pos (h.isEmpty_iff.mpr rfl)

end Represents

/-- The answer of the cache to an operation, and the cache after it. A pop that fails leaves it as it is. -/
def step (c : OverwritableCache T N) : Op T → Option T × OverwritableCache T N
  | .push v => (none, c.push v)
  | .stalePop =>
      match c.stalePop with
      | none => (none, c)
      | some (v, c) => (some v, c)
  | .freshPop =>
      match c.freshPop with
      | none => (none, c)
      | some (v, c) => (some v, c)

/-- Every operation is that of the queue. -/
theorem step_represents (h : c.Represents items) (op : Op T) :
    (c.step op).1 = (BoundedDeque.step N items op).1 ∧
      (c.step op).2.Represents (BoundedDeque.step N items op).2 := by
  cases op with
  | push v => exact ⟨rfl, h.push v⟩
  | stalePop =>
      rw [step, BoundedDeque.step]
      cases items with
      | nil =>
          rw [h.stalePop_none]
          exact ⟨rfl, h⟩
      | cons first rest =>
          obtain ⟨c', hpop, hrest⟩ := h.stalePop
          rw [hpop]
          exact ⟨rfl, hrest⟩
  | freshPop =>
      rw [step, BoundedDeque.step]
      rcases List.eq_nil_or_concat items with rfl | ⟨front, last, rfl⟩
      · rw [h.freshPop_none]
        exact ⟨rfl, h⟩
      · rw [List.concat_eq_append] at h ⊢
        obtain ⟨c', hpop, hfront⟩ := h.freshPop
        rw [hpop, List.getLast?_concat, List.dropLast_concat]
        exact ⟨rfl, hfront⟩

end OverwritableCache

/-! ### The contacts of the manager -/

namespace World

variable {w w' : World} {infoHash : Vector Byte 20} {e : Event}

theorem Touched.contacts_eq (h : Touched w w') : w'.contacts = w.contacts := by
  obtain ⟨object, kernel, failedAssertions, rfl⟩ := h
  rfl

theorem contacts_schedulerReturns (w : World) (found : Bool) :
    (w.schedulerReturns found).contacts = w.contacts := by
  unfold schedulerReturns
  cases w.current <;> rfl

theorem contacts_afterInitiate (w : World) (i : ConnectionSlot) (calls : ConnectCalls) :
    (afterInitiate i (w.initiateConnect i calls)).contacts = w.contacts := by
  have htouched := (Touched.connect w i calls).contacts_eq
  unfold initiateConnect
  generalize w.connect i calls = result at htouched ⊢
  obtain ⟨w₁, started⟩ := result
  cases started with
  | true => exact (contacts_schedulerReturns _ true).trans htouched
  | false => exact htouched

theorem contacts_schedulePeer (w : World) (contact : PeerContact) (calls : ConnectCalls) :
    (w.schedulePeer contact calls).contacts = w.contacts := by
  unfold schedulePeer
  split
  · exact contacts_schedulerReturns _ false
  · split
    · rfl
    · exact contacts_afterInitiate _ _ calls

theorem contacts_disconnectedTurn (w : World) (calls : ConnectCalls) :
    (w.disconnectedTurn calls).contacts = w.contacts := by
  unfold disconnectedTurn
  split
  · exact contacts_schedulerReturns w false
  · simp only
    split
    · rfl
    · split
      · rfl
      · exact contacts_afterInitiate _ _ calls

theorem contacts_failedTurn (w : World) (calls : ConnectCalls) :
    (w.failedTurn calls).contacts = w.contacts := by
  unfold failedTurn
  split
  · exact contacts_schedulerReturns w false
  · simp only
    split
    · rfl
    · exact contacts_afterInitiate _ _ calls

theorem contacts_establisherTurn (w : World) : w.establisherTurn.contacts = w.contacts := by
  unfold establisherTurn
  split
  · split
    · split
      · exact contacts_schedulerReturns w false
      · rfl
    · rfl
    · rfl
  · rfl

theorem contacts_makeWay (w : World) (endpoint : Endpoint) :
    (w.makeWay endpoint).contacts = w.contacts := by
  unfold makeWay
  split
  · rfl
  · rename_i mapped _
    unfold replacePeer
    simp only
    split
    · exact congrArg Prod.snd (aside_singleResolved (w.closeSocket mapped) (w.peer mapped).source)
    · rfl

theorem contacts_acceptTurn (w : World) (pendingAccepts : Bool) (call : AcceptReturn) :
    (w.acceptTurn pendingAccepts call).contacts = w.contacts := by
  have haccept : (w.acceptPeerConnection call).1.contacts = w.contacts := by
    cases call with
    | failed errno => rfl
    | accepted fd newStore =>
        unfold acceptPeerConnection
        simp only
        split
        · rfl
        · split
          · rfl
          · exact contacts_makeWay _ _
  unfold acceptTurn
  split
  · exact haccept
  · rfl

/-- The counter is the number of contacts in the cache. -/
def Counted (w : World) : Prop :=
  ∃ items, w.cache.Represents items ∧ w.statistics.ipv4AddrInCache = items.length

theorem Counted.congr (h : w.Counted) (hcontacts : w'.contacts = w.contacts) : w'.Counted := by
  obtain ⟨hcache, hcount⟩ := Prod.mk.inj hcontacts
  rw [Counted, hcache, hcount]
  exact h

/-- A contact that is pushed is counted, unless another one is dropped for it. -/
theorem Counted.drainTurn (h : w.Counted) : w.drainTurn.Counted := by
  unfold World.drainTurn
  split
  · rename_i addr discoveries _
    obtain ⟨items, hitems, hcount⟩ := h
    refine ⟨_, hitems.push addr, ?_⟩
    have hle := hitems.size_le
    dsimp only [ConnectionStatistics.incrementIpv4AddrInCache]
    rw [BoundedDeque.push]
    split
    · rename_i hroom
      dsimp only
      rw [if_pos (by omega), List.length_append, List.length_singleton, SizeT.inc_of_lt (by omega), hcount]
    · rename_i hfull
      rw [if_neg (by omega), List.length_append, List.length_tail, List.length_singleton]
      omega
  · apply h.congr
    simp only
    split <;> rfl

/-- A contact that is popped is no longer counted. -/
theorem Counted.discoveredTurn (h : w.Counted) (calls : ConnectCalls) : (w.discoveredTurn calls).Counted := by
  unfold World.discoveredTurn
  obtain ⟨items, hitems, hcount⟩ := h
  rcases List.eq_nil_or_concat items with rfl | ⟨front, last, rfl⟩
  · rw [hitems.freshPop_none]
    exact Counted.congr ⟨[], hitems, hcount⟩ (contacts_schedulerReturns w false)
  · rw [List.concat_eq_append] at hitems hcount
    obtain ⟨cache, hpop, hfront⟩ := hitems.freshPop
    have hle := hitems.size_le
    rw [List.length_append, List.length_singleton] at hcount hle
    rw [hpop]
    refine Counted.congr ⟨front, hfront, ?_⟩ (contacts_schedulePeer _ last calls)
    dsimp only [ConnectionStatistics.decrementIpv4AddrInCache]
    rw [hcount, SizeT.dec_of_pos (by omega) (by omega), Nat.add_sub_cancel]

theorem Counted.turn (h : w.Counted) {calls : TurnCalls} (hturn : w.turn calls = some w') : w'.Counted := by
  unfold World.turn at hturn
  split at hturn <;> cases hturn
  · exact h.drainTurn
  · exact h.congr (contacts_establisherTurn w)
  · exact h.discoveredTurn calls.connect
  · exact h.congr (contacts_disconnectedTurn w calls.connect)
  · exact h.congr (contacts_failedTurn w calls.connect)
  · exact h.congr (contacts_acceptTurn w _ calls.accept)

theorem Counted.step (h : w.Counted) (hstep : w.step infoHash e = some w') : w'.Counted := by
  cases e with
  | discover contact =>
      cases hstep
      exact h.congr rfl
  | setEndpoint =>
      simp only [World.step] at hstep
      split at hstep <;> cases hstep
      exact h.congr rfl
  | endpointDisconnected session perrno =>
      simp only [World.step] at hstep
      split at hstep <;> cases hstep
      exact h.congr rfl
  | drainDiscovered =>
      simp only [World.step] at hstep
      split at hstep <;> cases hstep
      exact h.congr rfl
  | notifyDisconnected =>
      simp only [World.step] at hstep
      split at hstep <;> cases hstep
      exact h.congr rfl
  | runDaemon =>
      simp only [World.step] at hstep
      split at hstep <;> cases hstep
      exact h.congr rfl
  | serverSocketCallback =>
      simp only [World.step] at hstep
      split at hstep <;> cases hstep
      exact h.congr rfl
  | timerExpires i =>
      simp only [World.step] at hstep
      split at hstep <;> cases hstep
      exact h.congr (congrArg Prod.snd (aside_peerTimerCallback w i))
  | socketReady i revents calls =>
      simp only [World.step] at hstep
      split at hstep <;> cases hstep
      exact h.congr (congrArg Prod.snd (aside_peerSocketCallback w i revents calls))
  | turn calls =>
      simp only [World.step] at hstep
      split at hstep
      · exact h.turn hstep
      · cases hstep

theorem counted (h : (managerMachine infoHash).Reachable w) : w.Counted := by
  refine h.invariant Counted ?_ fun _ _ _ hw hstep => hw.step hstep
  rintro _ rfl
  exact ⟨[], OverwritableCache.initial_represents (by decide) _, rfl⟩

end World

/-- **The cache is a double-ended queue** of at most `N` values that drops its stalest one for a push when it
is full: it answers every sequence of operations as the queue does, and is empty when the queue is. **The
manager counts it**: in every state it reaches the counter is the number of contacts in the cache, and at most
200. -/
theorem discovery_cache {T : Type} {N : Nat} (hN : 0 < N) (value : T) (ops : List (Op T))
    {infoHash : Vector Byte 20} {w : World} (h : (managerMachine infoHash).Reachable w) :
    ((BoundedDeque.run OverwritableCache.step (OverwritableCache.initial N value) ops).1 =
        (BoundedDeque.run (BoundedDeque.step N) [] ops).1 ∧
      (BoundedDeque.run OverwritableCache.step (OverwritableCache.initial N value) ops).2.Represents
        (BoundedDeque.run (BoundedDeque.step N) [] ops).2 ∧
      ((BoundedDeque.run OverwritableCache.step (OverwritableCache.initial N value) ops).2.isEmpty = true ↔
        (BoundedDeque.run (BoundedDeque.step N) ([] : List T) ops).2 = [])) ∧
      ∃ contacts, w.cache.Represents contacts ∧ contacts.length ≤ 200 ∧ w.cache.size = contacts.length ∧
        w.statistics.ipv4AddrInCache = contacts.length := by
  obtain ⟨hanswers, hrep⟩ := run_simulate OverwritableCache.Represents
    (fun _ _ op hR => OverwritableCache.step_represents hR op)
    (OverwritableCache.initial_represents hN value) ops
  obtain ⟨contacts, hcontacts, hcount⟩ := World.counted h
  exact ⟨⟨hanswers, hrep, hrep.isEmpty_iff⟩, contacts, hcontacts, hcontacts.size_le, hcontacts.size_eq, hcount⟩

/-- Pushes that overwrite, and pops at both ends. -/
def sampleOps : List (Op Nat) :=
  [.push 1, .push 2, .push 3, .push 4, .freshPop, .stalePop, .push 5, .stalePop, .stalePop, .freshPop]

/-- Two contacts are found and moved to the cache. -/
def drainedRun : List Event :=
  [.discover (World.sampleStore 80).contact, .discover (World.sampleStore 81).contact, .drainDiscovered,
    .turn World.idleCalls, .turn World.idleCalls]

theorem discovery_cache_sample :
    (BoundedDeque.run OverwritableCache.step (OverwritableCache.initial 3 0) sampleOps).1 =
        [none, none, none, none, some 4, some 2, none, some 3, some 5, none] ∧
      (World.afterRun drainedRun).statistics.ipv4AddrInCache = 2 := by
  obtain ⟨⟨hanswers, -⟩, contacts, -, -, hsize, hcount⟩ :=
    discovery_cache (by decide : 0 < 3) 0 sampleOps (World.afterRun_reachable drainedRun)
  have hcache : (World.afterRun drainedRun).cache.size = 2 := by decide +kernel
  exact ⟨hanswers, hcount.trans (hsize.symm.trans hcache)⟩

end TorrentEngine
