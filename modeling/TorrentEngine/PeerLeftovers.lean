import TorrentEngine.PeerRounds

/-! What may be left in the queues when `round_robin_establisher_scheduler` ends. Its flags are those of the
last visits, also of visits in earlier calls, so that the loop may break before it comes to a spot. -/

open Transition

namespace TorrentEngine

namespace World

variable {w w' : World} {infoHash : Vector Byte 20} {spot : Spot} {calls : TurnCalls}

/-! ### Spots that the loop may not come to -/

/-- When no scheduler finds anything, the loop breaks before it comes to this spot. -/
def Skips (w : World) (spot : Spot) : Prop :=
  w.emptyFlag w.current.next.next = true ∧
    (spot = w.current.next.next ∨ spot = w.current.next ∧ w.emptyFlag w.current.next = true)

/-- A spot that the loop may not come to has something to try. -/
def Overlooks (w : World) : Prop := ∃ spot, w.Skips spot ∧ w.Offers spot

/-- What the establisher is woken for: there is no room for a connection, or nothing to connect to. -/
def Exhausted (w : World) : Prop := 35 ≤ w.statistics.inboundInflight ∨ w.NothingLeft

/-- The next turn deletes a peer, when its system calls return these: the peer of an ended session that is not
connected to again, or one whose retry fails. -/
inductive Deleting (calls : ConnectCalls) (w : World) : Prop
  | disconnected (d : DisconnectUpdate) (ds : List DisconnectUpdate) : w.control = .reconnecting →
      w.disconnects = d :: ds → w.pool.generation d.peer = d.generation →
      ((w.peer d.peer).tcp.perrno = peerShutdown ∨ (w.peer d.peer).source = .tcpServer ∨
        w.AttemptFails d.peer calls) → Deleting calls w
  | failed (r : PeerFailureUpdate) (rs : List PeerFailureUpdate) : w.control = .retrying →
      w.retryQueue = r :: rs → w.pool.generation r.connection = r.cachedGeneration →
      w.AttemptFails r.connection calls → Deleting calls w

/-- The next turn gives a slot of the full pool back, contacts wait in the cache, and the loop may break before
it comes to them. -/
def FreesUnseen (w : World) (calls : ConnectCalls) : Prop :=
  w.pool.available = 0 ∧ Deleting calls w ∧ 0 < w.cache.size ∧ w.Skips .discovered

/-- A run of the loop from its head: the turns of the manager's thread, and no other step. -/
def Establishes (infoHash : Vector Byte 20) (w w' : World) : Prop :=
  ((managerMachine infoHash).startedAt w).ReachableBy (fun _ e => ∃ calls, e = .turn calls) w'

theorem Skips.ne_current (h : w.Skips spot) : spot ≠ w.current := by
  rcases h.2 with hlast | ⟨hnext, -⟩
  · rw [hlast]
    exact w.current.next_next_ne
  · rw [hnext]
    exact w.current.next_ne

theorem Consumes.skips_iff (h : Consumes w w') : w'.Skips spot ↔ w.Skips spot := by
  unfold Skips emptyFlag
  rw [h.current, h.empties]

/-- An entry taken from another queue leaves what a spot offers, unless it gives the first slot back. -/
theorem Consumes.offers (h : Consumes w w') (hspot : spot ≠ w.current) (hoffers : w'.Offers spot) :
    w.Offers spot ∨ spot = .discovered ∧ w.pool.available = 0 ∧ w'.pool.available ≠ 0 ∧
      0 < w.cache.size := by
  obtain ⟨hpos, havailable⟩ := hoffers
  rw [h.others spot hspot] at hpos
  by_cases hdiscovered : spot = .discovered
  · by_cases hzero : w.pool.available = 0
    · rw [hdiscovered] at hpos
      exact Or.inr ⟨hdiscovered, hzero, havailable hdiscovered, hpos⟩
    · exact Or.inl ⟨hpos, fun _ => hzero⟩
  · exact Or.inl ⟨hpos, fun hspot => absurd hspot hdiscovered⟩

theorem offers_schedulerReturns (w : World) (found : Bool) :
    (w.schedulerReturns found).Offers spot ↔ w.Offers spot := by
  unfold Offers
  rw [entriesAt_schedulerReturns, pool_schedulerReturns]

/-- After a visit in vain the loop skips what it skipped before, and the spot it visited. -/
theorem skips_returns_false (hcontrol : (w.schedulerReturns false).control = .establishing) :
    (w.schedulerReturns false).Skips spot ↔ w.Skips spot ∨ spot = w.current := by
  have hself := emptyFlag_schedulerReturns_self w false
  have hlast := emptyFlag_schedulerReturns_next_next w false
  have hgoes : ¬ (w.emptyFlag w.current.next = true ∧ w.emptyFlag w.current.next.next = true) := by
    intro hflags
    rw [control_schedulerReturns, if_pos ⟨rfl, hflags⟩] at hcontrol
    cases hcontrol
  unfold Skips
  rw [current_schedulerReturns, Spot.next_next_next, hself, hlast]
  constructor
  · rintro ⟨-, hspot | ⟨hspot, hflag⟩⟩
    · exact Or.inr hspot
    · exact Or.inl ⟨hflag, Or.inl hspot⟩
  · rintro (⟨hflag, hspot | ⟨-, hnext⟩⟩ | hspot)
    · exact ⟨rfl, Or.inr ⟨hspot, hflag⟩⟩
    · exact absurd ⟨hnext, hflag⟩ hgoes
    · exact ⟨rfl, Or.inl hspot⟩

/-- The loop breaks after a visit in vain when it skips the two other spots. -/
theorem skips_of_eventLoop (hcontrol : (w.schedulerReturns false).control = .eventLoop)
    (hspot : spot ≠ w.current) : w.Skips spot := by
  rw [control_schedulerReturns] at hcontrol
  split at hcontrol
  · rename_i hflags
    refine ⟨hflags.2.2, ?_⟩
    rcases w.current.eq_or_next spot with h | h | h
    · exact absurd h hspot
    · exact Or.inr ⟨h, hflags.2.1⟩
    · exact Or.inl h
  · cases hcontrol

theorem not_skips_returns_true (w : World) : ¬ (w.schedulerReturns true).Skips spot := by
  rintro ⟨hflag, -⟩
  rw [(returns_true w).2] at hflag
  cases hflag

/-- What is so all along a run of the loop that never frees a slot unseen. -/
structure Attentive (w : World) : Prop where
  round : InRound w
  exhausted : w.control = .eventLoop → w.Exhausted
  sees : w.control ≠ .eventLoop → w.statistics.inboundInflight < 35 → ¬ w.Overlooks

theorem Attentive.returns_false (hnothing : ¬ w.Offers w.current) (hsees : ¬ w.Overlooks) :
    Attentive (w.schedulerReturns false) := by
  refine ⟨inRound_schedulerReturns w false, fun hcontrol => Or.inr ?_, fun hcontrol _ => ?_⟩
  · apply (nothingLeft_iff _).mpr
    intro spot hoffers
    rw [offers_schedulerReturns] at hoffers
    by_cases hspot : spot = w.current
    · rw [hspot] at hoffers
      exact hnothing hoffers
    · exact hsees ⟨spot, skips_of_eventLoop hcontrol hspot, hoffers⟩
  · rintro ⟨spot, hskips, hoffers⟩
    rw [offers_schedulerReturns] at hoffers
    have hhead := (allowance_returns_false w).resolve_left hcontrol
    rcases (skips_returns_false hhead.1).mp hskips with hskips | hspot
    · exact hsees ⟨spot, hskips, hoffers⟩
    · rw [hspot] at hoffers
      exact hnothing hoffers

theorem RoundTurn.attentive (h : RoundTurn calls w w') (hw : Attentive w)
    (hfrees : w.pool.available = 0 → w'.pool.available ≠ 0 → 0 < w.cache.size → ¬ w.Skips .discovered) :
    Attentive w' := by
  have hround := h.inRound
  cases h with
  | full _ hfull => exact ⟨hround, fun _ => Or.inl hfull, fun hcontrol => absurd rfl hcontrol⟩
  | declined hhead hroom hcurrent hzero =>
      refine .returns_false ?_ (hw.sees (by rw [hhead]; exact Control.noConfusion) hroom)
      exact fun hoffers => hoffers.2 hcurrent hzero
  | enters hhead _ _ =>
      have hgoes : w.control ≠ .eventLoop := by
        rw [hhead]
        exact Control.noConfusion
      refine ⟨hround, fun hcontrol => absurd hcontrol w.current.loop_ne_eventLoop, fun _ hroom => ?_⟩
      exact hw.sees hgoes hroom
  | visits _ hvisiting hroom _ hvisited =>
      have hgoes : w.control ≠ .eventLoop := by
        rw [hvisiting]
        exact w.current.loop_ne_eventLoop
      have hsees := hw.sees hgoes hroom
      cases hvisited with
      | nothing hempty =>
          exact .returns_false (fun hoffers => absurd hempty (Nat.ne_of_gt hoffers.1)) hsees
      | dropped _ hconsumes hsame _ _ =>
          refine ⟨hround, fun hcontrol => absurd (hsame.symm.trans hcontrol) hgoes, fun _ _ => ?_⟩
          rintro ⟨spot, hskips, hoffers⟩
          rw [hconsumes.skips_iff] at hskips
          rcases hconsumes.offers hskips.ne_current hoffers with hold | ⟨rfl, hzero, hfreed, hcache⟩
          · exact hsees ⟨spot, hskips, hold⟩
          · exact hfrees hzero hfreed hcache hskips
      | started u hconsumes _ _ _ =>
          refine ⟨hround, fun hcontrol => ?_, fun _ _ => ?_⟩
          · rw [(returns_true u).1] at hcontrol
            cases hcontrol
          · rintro ⟨spot, hskips, -⟩
            exact not_skips_returns_true u hskips

/-- What stays so when the attempts to connect fail: the loop is about to miss something, or has. -/
structure Blind (w : World) : Prop where
  round : InRound w
  room : w.statistics.inboundInflight < 35
  missed : ∃ spot, w.Offers spot ∧ (w.control ≠ .eventLoop → w.Skips spot)

theorem RoundTurn.blind (h : RoundTurn idleCalls w w') (hw : Blind w) : Blind w' := by
  have hround := h.inRound
  obtain ⟨-, hroom, spot, hoffers, hmissed⟩ := hw
  have hfalse : w.Skips spot → Blind (w.schedulerReturns false) := by
    intro hskips
    refine ⟨inRound_schedulerReturns w false, ?_, spot, ?_, fun hcontrol => ?_⟩
    · rw [statistics_schedulerReturns]
      exact hroom
    · rw [offers_schedulerReturns]
      exact hoffers
    · have hhead := (allowance_returns_false w).resolve_left hcontrol
      exact (skips_returns_false hhead.1).mpr (Or.inl hskips)
  cases h with
  | full _ hfull => omega
  | declined hhead _ _ _ => exact hfalse (hmissed (by rw [hhead]; exact Control.noConfusion))
  | enters hhead _ _ =>
      refine ⟨hround, hroom, spot, hoffers, fun _ => hmissed ?_⟩
      rw [hhead]
      exact Control.noConfusion
  | visits _ hvisiting _ _ hvisited =>
      have hskips : w.Skips spot := by
        apply hmissed
        rw [hvisiting]
        exact w.current.loop_ne_eventLoop
      cases hvisited with
      | nothing => exact hfalse hskips
      | dropped _ hconsumes _ hinflight hkept =>
          refine ⟨hround, hinflight ▸ hroom, spot, ⟨?_, fun hspot => hkept (hoffers.2 hspot)⟩, fun _ => ?_⟩
          · rw [hconsumes.others spot hskips.ne_current]
            exact hoffers.1
          · exact hconsumes.skips_iff.mpr hskips
      | started _ _ hopened => exact absurd rfl hopened

theorem step_turn (w : World) (hfree : w.fdFree calls.connect.socket.fd? ∧ w.fdFree calls.accept.fd?) :
    w.step infoHash (.turn calls) = w.turn calls := by
  rw [step, if_pos hfree]

theorem RoundTurn.of_step (h : InRound w) (hstep : w.step infoHash (.turn calls) = some w') :
    RoundTurn calls w w' := by
  simp only [step] at hstep
  split at hstep
  · have hcontrol : w.control ≠ .eventLoop := by
      intro hreturned
      rw [turn_eventLoop hreturned] at hstep
      cases hstep
    obtain ⟨u, hturn, hround⟩ := turn_round h hcontrol calls
    rw [hturn] at hstep
    cases hstep
    exact hround
  · cases hstep

/-! ### Turns that give a slot of the full pool back -/

theorem available_deletePeerConnection (w : World) (i : ConnectionSlot) :
    (w.deletePeerConnection i).pool.available ≠ 0 := Nat.succ_ne_zero _

theorem afterInitiate_frees_iff (hfull : w.pool.available = 0) (i : ConnectionSlot) (calls : ConnectCalls) :
    (afterInitiate i (w.initiateConnect i calls)).pool.available ≠ 0 ↔ w.AttemptFails i calls := by
  have hfails := connect_fails_iff w i calls
  have htouched := Touched.connect w i calls
  unfold initiateConnect
  generalize w.connect i calls = result at hfails htouched ⊢
  obtain ⟨w₁, started⟩ := result
  rw [← hfails]
  cases started with
  | true =>
      obtain ⟨object, kernel, failedAssertions, rfl⟩ := htouched
      refine iff_of_false (not_not.mpr ?_) Bool.noConfusion
      unfold afterInitiate
      rw [pool_schedulerReturns]
      exact hfull
  | false => exact iff_of_true (available_deletePeerConnection w₁ i) rfl

theorem disconnectedTurn_frees_iff (hcontrol : w.control = .reconnecting) (hfull : w.pool.available = 0)
    (calls : ConnectCalls) : (w.disconnectedTurn calls).pool.available ≠ 0 ↔ Deleting calls w := by
  cases hqueue : w.disconnects with
  | nil =>
      have hturn : w.disconnectedTurn calls = w.schedulerReturns false := by
        rw [disconnectedTurn, hqueue]
      rw [hturn, pool_schedulerReturns]
      refine iff_of_false (not_not.mpr hfull) ?_
      rintro (⟨d, ds, -, hnext, -⟩ | ⟨r, rs, hretrying, -⟩)
      · cases hqueue.symm.trans hnext
      · exact Control.noConfusion (hcontrol.symm.trans hretrying)
  | cons d ds =>
      have hdeleting : Deleting calls w ↔ w.pool.generation d.peer = d.generation ∧
          ((w.peer d.peer).tcp.perrno = peerShutdown ∨ (w.peer d.peer).source = .tcpServer ∨
            w.AttemptFails d.peer calls) := by
        constructor
        · rintro (⟨d', ds', -, hnext, hcurrent, hdeleted⟩ | ⟨r, rs, hretrying, -⟩)
          · cases hqueue.symm.trans hnext
            exact ⟨hcurrent, hdeleted⟩
          · exact Control.noConfusion (hcontrol.symm.trans hretrying)
        · rintro ⟨hcurrent, hdeleted⟩
          exact .disconnected d ds hcontrol hqueue hcurrent hdeleted
      rw [hdeleting]
      by_cases hcurrent : w.pool.generation d.peer = d.generation
      · rw [disconnectedTurn_current hqueue hcurrent, and_iff_right hcurrent, ← or_assoc]
        split
        · rename_i hdeleted
          exact iff_of_true (available_deletePeerConnection _ _) (Or.inl hdeleted)
        · rename_i hkept
          have hfull' : (w.countDisconnect d ds).pool.available = 0 := hfull
          rw [afterInitiate_frees_iff hfull', or_iff_right hkept, AttemptFails, AttemptFails,
            peer_countDisconnect]
      · rw [disconnectedTurn_stale hqueue hcurrent]
        exact iff_of_false (not_not.mpr hfull) fun h => hcurrent h.1

theorem failedTurn_frees_iff (hcontrol : w.control = .retrying) (hfull : w.pool.available = 0)
    (calls : ConnectCalls) : (w.failedTurn calls).pool.available ≠ 0 ↔ Deleting calls w := by
  unfold failedTurn
  cases hqueue : w.retryQueue with
  | nil =>
      simp only
      rw [pool_schedulerReturns]
      refine iff_of_false (not_not.mpr hfull) ?_
      rintro (⟨d, ds, hreconnecting, -⟩ | ⟨r, rs, -, hnext, -⟩)
      · exact Control.noConfusion (hcontrol.symm.trans hreconnecting)
      · cases hqueue.symm.trans hnext
  | cons r rs =>
      have hdeleting : Deleting calls w ↔ w.pool.generation r.connection = r.cachedGeneration ∧
          w.AttemptFails r.connection calls := by
        constructor
        · rintro (⟨d, ds, hreconnecting, -⟩ | ⟨r', rs', -, hnext, hcurrent, hfails⟩)
          · exact Control.noConfusion (hcontrol.symm.trans hreconnecting)
          · cases hqueue.symm.trans hnext
            exact ⟨hcurrent, hfails⟩
        · rintro ⟨hcurrent, hfails⟩
          exact .failed r rs hcontrol hqueue hcurrent hfails
      rw [hdeleting]
      simp only
      split
      · rename_i hstale
        exact iff_of_false (not_not.mpr hfull) fun h => hstale h.1
      · rename_i hcurrent
        rw [not_not] at hcurrent
        rw [and_iff_right hcurrent]
        let w₁ := { w with retryQueue := rs, statistics := w.statistics.decrementPeersInRetry }
        exact @afterInitiate_frees_iff w₁ hfull r.connection calls

theorem pool_establisherTurn (w : World) : w.establisherTurn.pool = w.pool := by
  unfold establisherTurn
  split
  · split
    · split
      · exact pool_schedulerReturns w false
      · rfl
    · rfl
    · rfl
  · rfl

/-- **A turn of the loop gives a slot of the full pool back exactly when it deletes a peer.** -/
theorem step_frees_iff (h : InRound w) (hfull : w.pool.available = 0)
    (hstep : w.step infoHash (.turn calls) = some w') :
    w'.pool.available ≠ 0 ↔ Deleting calls.connect w := by
  have hturn : w.turn calls = some w' := by
    simp only [step] at hstep
    split at hstep
    · exact hstep
    · cases hstep
  cases h with
  | returned hreturned =>
      rw [turn_eventLoop hreturned] at hturn
      cases hturn
  | head hhead =>
      rw [turn, hhead] at hturn
      cases hturn
      rw [pool_establisherTurn]
      refine iff_of_false (not_not.mpr hfull) ?_
      rintro (⟨d, ds, hreconnecting, -⟩ | ⟨r, rs, hretrying, -⟩)
      · exact Control.noConfusion (hhead.symm.trans hreconnecting)
      · exact Control.noConfusion (hhead.symm.trans hretrying)
  | visiting hvisiting _ havailable =>
      cases hcurrent : w.current with
      | discovered => exact absurd hfull (havailable hcurrent)
      | disconnected =>
          have hcontrol : w.control = .reconnecting := by rw [hvisiting, hcurrent]; rfl
          rw [turn, hcontrol] at hturn
          cases hturn
          exact disconnectedTurn_frees_iff hcontrol hfull calls.connect
      | failed =>
          have hcontrol : w.control = .retrying := by rw [hvisiting, hcurrent]; rfl
          rw [turn, hcontrol] at hturn
          cases hturn
          exact failedTurn_frees_iff hcontrol hfull calls.connect

/-- When the attempts to connect fail, the loop ends with what it was about to miss. -/
theorem Blind.misses (hw : Blind w) :
    ∃ w', Establishes infoHash w w' ∧ w'.control = .eventLoop ∧ ¬ w'.Exhausted := by
  have hstep : ∀ u, Blind u → ¬ u.control = .eventLoop →
      ∃ e t, (∃ calls, e = .turn calls) ∧ (managerMachine infoHash).Step u e t ∧ Blind t ∧
        t.rank < u.rank := by
    intro u hu hgoes
    obtain ⟨t, hturn, hround⟩ := turn_round hu.round hgoes idleCalls
    refine ⟨.turn idleCalls, t, ⟨idleCalls, rfl⟩, ?_, hround.blind hu, hround.rank_lt⟩
    exact (step_turn u ⟨rfl, rfl⟩).trans hturn
  obtain ⟨w', hrun, hblind, hreturned⟩ := Machine.exists_final (managerMachine infoHash)
    Blind (fun u => u.control = .eventLoop) rank hstep hw
  refine ⟨w', hrun, hreturned, ?_⟩
  rintro (hfull | hnothing)
  · have hroom := hblind.room
    omega
  · obtain ⟨spot, hoffers, -⟩ := hblind.missed
    exact (nothingLeft_iff w').mp hnothing spot hoffers

theorem Establishes.inRound (hcontrol : w.control = .establishing) (h : Establishes infoHash w w') :
    InRound w' := by
  refine Machine.ReachableBy.invariant InRound ?_ ?_ h
  · rintro u rfl
    exact .head hcontrol
  · rintro u e u' - hround ⟨calls, rfl⟩ hstep
    exact (RoundTurn.of_step hround hstep).inRound

/-- The turns of a run put no entry into a queue. -/
theorem RoundTurn.entriesAt_le (h : RoundTurn calls w w') (spot : Spot) :
    w'.entriesAt spot ≤ w.entriesAt spot := by
  have hconsumes : ∀ {u : World}, Consumes w u → u.entriesAt spot ≤ w.entriesAt spot := by
    intro u hu
    by_cases hspot : spot = w.current
    · have hown := hu.own
      rw [hspot]
      omega
    · exact Nat.le_of_eq (hu.others spot hspot)
  cases h with
  | full => exact Nat.le_refl _
  | declined => exact Nat.le_of_eq (congrFun (entriesAt_schedulerReturns w false) spot)
  | enters => exact Nat.le_refl _
  | visits _ _ _ _ hvisited =>
      cases hvisited with
      | nothing => exact Nat.le_of_eq (congrFun (entriesAt_schedulerReturns w false) spot)
      | dropped _ hdropped => exact hconsumes hdropped
      | started u hstarted =>
          rw [entriesAt_schedulerReturns]
          exact hconsumes hstarted

theorem Establishes.entriesAt_le (hcontrol : w.control = .establishing) (h : Establishes infoHash w w')
    (spot : Spot) : w'.entriesAt spot ≤ w.entriesAt spot := by
  have hboth : InRound w' ∧ w'.entriesAt spot ≤ w.entriesAt spot := by
    refine Machine.ReachableBy.invariant (fun u => InRound u ∧ u.entriesAt spot ≤ w.entriesAt spot) ?_ ?_ h
    · rintro u rfl
      exact ⟨.head hcontrol, Nat.le_refl _⟩
    · rintro u e u' - ⟨hround, hle⟩ ⟨calls, rfl⟩ hstep
      have hturn := RoundTurn.of_step hround hstep
      exact ⟨hturn.inRound, (hturn.entriesAt_le spot).trans hle⟩
  exact hboth.2

/-- **What the establisher leaves.** From any flags, position and queues, each run of the loop ends with no
room for a connection or with nothing to connect to, exactly when no spot with something to try is flagged
from an earlier call and not visited before the loop breaks, and no turn gives a slot of the full pool back
when the contacts in the cache have been passed by. -/
theorem establisher_exhausts_iff (hcontrol : w.control = .establishing) :
    (∀ w', Establishes infoHash w w' → w'.control = .eventLoop → w'.Exhausted) ↔
      (w.statistics.inboundInflight < 35 → ¬ w.Overlooks) ∧
        ∀ u calls u', Establishes infoHash w u → u.step infoHash (.turn calls) = some u' →
          ¬ u.FreesUnseen calls.connect := by
  have hgoes : w.control ≠ .eventLoop := by
    rw [hcontrol]
    exact Control.noConfusion
  constructor
  · intro hexhausts
    have hnever : ∀ u, Establishes infoHash w u → ¬ Blind u := by
      intro u hu hblind
      obtain ⟨w', hrun, hreturned, hleft⟩ := @Blind.misses u infoHash hblind
      exact hleft (hexhausts w' (hu.trans_startedAt hrun) hreturned)
    refine ⟨fun hroom hoverlooks => ?_, fun u calls u' hu hstep hfrees => ?_⟩
    · obtain ⟨spot, hskips, hoffers⟩ := hoverlooks
      exact hnever w (.init rfl) ⟨.head hcontrol, hroom, spot, hoffers, fun _ => hskips⟩
    · have hu' : Establishes infoHash w u' := hu.step ⟨calls, rfl⟩ hstep
      obtain ⟨hzero, hdeleting, hcache, hskips⟩ := hfrees
      have hfreed := (step_frees_iff (hu.inRound hcontrol) hzero hstep).mpr hdeleting
      have hround := RoundTurn.of_step (hu.inRound hcontrol) hstep
      have hinRound := hround.inRound
      have hne := hskips.ne_current
      cases hround with
      | full => exact hfreed hzero
      | declined =>
          rw [pool_schedulerReturns] at hfreed
          exact hfreed hzero
      | enters => exact hfreed hzero
      | visits _ hvisiting hroom _ hvisited =>
          cases hvisited with
          | nothing =>
              rw [pool_schedulerReturns] at hfreed
              exact hfreed hzero
          | dropped _ hconsumes _ hinflight _ =>
              refine hnever u' hu' ⟨hinRound, hinflight ▸ hroom, .discovered, ⟨?_, fun _ => hfreed⟩, fun _ => ?_⟩
              · rw [hconsumes.others .discovered hne]
                exact hcache
              · exact hconsumes.skips_iff.mpr hskips
          | started t _ _ _ hfull =>
              rw [pool_schedulerReturns] at hfreed
              exact hfreed (hfull hzero)
  · rintro ⟨hsees, hfrees⟩ w' hrun hreturned
    have hattentive : Attentive w' ∧ Establishes infoHash w w' := by
      refine Machine.ReachableBy.invariant (M := (managerMachine infoHash).startedAt w)
        (fun u => Attentive u ∧ Establishes infoHash w u) ?_ ?_ hrun
      · rintro u rfl
        exact ⟨⟨.head hcontrol, fun h => absurd h hgoes, fun _ => hsees⟩, .init rfl⟩
      · rintro u e u' - ⟨hattentive, hu⟩ ⟨calls, rfl⟩ hstep
        refine ⟨(RoundTurn.of_step hattentive.round hstep).attentive hattentive ?_, ?_⟩
        · intro hzero hfreed hcache hskips
          have hdeleting := (step_frees_iff hattentive.round hzero hstep).mp hfreed
          exact hfrees u calls u' hu hstep ⟨hzero, hdeleting, hcache, hskips⟩
        · exact hu.step ⟨calls, rfl⟩ hstep
    exact hattentive.1.exhausted hreturned

theorem looped_establishes (w : World) (n : Nat) :
    Establishes infoHash w (w.looped (fun _ => idleCalls) n) := by
  induction n with
  | zero => exact .init rfl
  | succ n ih =>
      rw [looped]
      cases hturn : (w.looped (fun _ => idleCalls) n).turn idleCalls with
      | none => exact ih
      | some w' => exact ih.step ⟨idleCalls, rfl⟩ ((step_turn _ ⟨rfl, rfl⟩).trans hturn)

/-- After a first contact was connected to, another was drained into the cache, and the daemon was woken. -/
def lateWorld : World :=
  afterRun (connectRun 80 5 .inprogress ++ [.discover (sampleStore 81).contact, .drainDiscovered] ++
    List.replicate 2 (.turn idleCalls) ++ [.runDaemon])

/-- A first contact is connected to however the attempts return, and the second is not looked at. -/
theorem establisher_exhausts_iff_sample :
    (∀ w', Establishes sampleInfoHash wokenWorld w' → w'.control = .eventLoop → w'.Exhausted) ∧
      ¬ ∀ w', Establishes sampleInfoHash lateWorld w' → w'.control = .eventLoop → w'.Exhausted := by
  constructor
  · have hcontrol : wokenWorld.control = .establishing := by decide +kernel
    have hflag : wokenWorld.emptyFlag wokenWorld.current.next.next = false := by decide +kernel
    have hdisconnects : wokenWorld.entriesAt .disconnected = 0 := by decide +kernel
    have hretries : wokenWorld.entriesAt .failed = 0 := by decide +kernel
    refine (establisher_exhausts_iff hcontrol).mpr ⟨fun _ => ?_, fun u calls u' hu _ hfrees => ?_⟩
    · rintro ⟨spot, ⟨hset, -⟩, -⟩
      exact Bool.noConfusion (hflag.symm.trans hset)
    · have hnone := hu.entriesAt_le hcontrol
      obtain ⟨-, ⟨d, ds, -, hqueue, -⟩ | ⟨r, rs, -, hqueue, -⟩, -⟩ := hfrees
      · have hempty := Nat.eq_zero_of_le_zero ((hnone .disconnected).trans_eq hdisconnects)
        cases hqueue.symm.trans (List.length_eq_zero_iff.mp hempty)
      · have hempty := Nat.eq_zero_of_le_zero ((hnone .failed).trans_eq hretries)
        cases hqueue.symm.trans (List.length_eq_zero_iff.mp hempty)
  have hcontrol : lateWorld.control = .establishing := by decide +kernel
  have hskips : lateWorld.Skips .discovered := ⟨by decide +kernel, Or.inl (by decide +kernel)⟩
  have hoffers : lateWorld.Offers .discovered := ⟨by decide +kernel, fun _ => by decide +kernel⟩
  intro hexhausts
  exact ((establisher_exhausts_iff hcontrol).mp hexhausts).1 (by decide +kernel)
    ⟨.discovered, hskips, hoffers⟩

/-- The daemon was woken for the contact in the cache, and the loop ends after a look at the disconnects. -/
theorem establisher_misses_late : (managerMachine sampleInfoHash).Reachable lateWorld ∧
    lateWorld.control = .establishing ∧
      ∃ w', Establishes sampleInfoHash lateWorld w' ∧ w'.control = .eventLoop ∧
        w'.statistics.inboundInflight = 1 ∧ w'.cache.size = 1 ∧ w'.pool.available = 199 ∧
          ¬ w'.Exhausted := by
  let w' := lateWorld.looped (fun _ => idleCalls) 2
  have hinflight : w'.statistics.inboundInflight = 1 := by decide +kernel
  have hsize : w'.cache.size = 1 := by decide +kernel
  have havailable : w'.pool.available = 199 := by decide +kernel
  refine ⟨afterRun_reachable _, by decide +kernel, w', looped_establishes _ _, by decide +kernel, hinflight,
    hsize, havailable, ?_⟩
  rintro (hfull | hnothing)
  · omega
  · refine (nothingLeft_iff w').mp hnothing .discovered ⟨?_, fun _ => ?_⟩
    · exact Nat.lt_of_lt_of_eq Nat.one_pos hsize.symm
    · omega

end World

end TorrentEngine
