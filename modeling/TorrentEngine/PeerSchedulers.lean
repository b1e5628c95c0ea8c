import TorrentEngine.PeerCallbacks

/-! The turns of the schedulers and of the accept loop as moves of the ledger, with what the loops rely
on from one turn to the next. -/

open Transition

namespace TorrentEngine

open PeerConnection Ledger

/-- `socket` or `connect` itself reports an error. -/
def ConnectCalls.reportError : ConnectCalls → Bool
  | ⟨.failed _, _⟩ => true
  | ⟨.opened _, .failed _⟩ => true
  | ⟨.opened _, _⟩ => false

namespace World

variable {w w₁ w₂ w' : World} {i x : ConnectionSlot} {infoHash : Vector Byte 20} {e : Event}

/-! ### What the loops rely on -/

/-- The establisher calls a scheduler only with room for a connection, and the one for discovered peers
only with a slot available. -/
structure Scheduling (w : World) : Prop where
  room : w.control ∈ [.discovering, .reconnecting, .retrying] → w.statistics.inboundInflight < 35
  available : w.control = .discovering → w.pool.available ≠ 0

theorem Scheduling.of_control {control : Control} (hcontrol : w.control = control)
    (h : control ∉ [.discovering, .reconnecting, .retrying]) : w.Scheduling := by
  rw [← hcontrol] at h
  refine ⟨fun hmem => absurd hmem h, fun hdiscovering => absurd ?_ h⟩
  rw [hdiscovering]
  exact List.mem_cons_self

/-- A step that keeps all that steps keep. -/
structure Takes (infoHash : Vector Byte 20) (w : World) (e : Event) (w' : World) : Prop where
  pool : w'.pool.WellFormed
  scheduling : w'.Scheduling
  moves : Moves infoHash w e w'.ledger

/-! ### `connect` -/

theorem closed_opened {kernel : Kernel} {fd : Fd} (hfd : kernel fd = none) :
    (kernel.opened fd).closed (some fd) = kernel := by
  rw [Kernel.opened, Kernel.closed, Function.update_idem, ← hfd, Function.update_eq_self]

/-- Either no socket is opened, and only the error changes, or none was recorded and one is. -/
theorem openSocket_cases (w : World) (i : ConnectionSlot) (domain : SaFamily) (call : SocketReturn) :
    (((w.peer i).tcp.socket ≠ none ∨ domain = .afUnspec ∨ call.fd? = none) ∧
        ∃ perrno, w.openSocket i domain call =
          (w.setPeer i { w.peer i with tcp := { (w.peer i).tcp with perrno } }, false)) ∨
      ∃ fd, call = .opened fd ∧ (w.peer i).tcp.socket = none ∧
        (domain = .afInet ∨ domain = .afInet6) ∧ w.openSocket i domain call =
          ((w.openFd fd).setPeer i { w.peer i with tcp := { (w.peer i).tcp with socket := some fd } },
            true) := by
  unfold openSocket
  simp only
  split
  · rename_i hsocket
    exact Or.inl ⟨Or.inl hsocket, einval, rfl⟩
  · rename_i hsocket
    split
    · rename_i hdomain
      refine Or.inl ⟨Or.inr (Or.inl ?_), eafnosupport, rfl⟩
      cases domain with
      | afUnspec => rfl
      | afInet => exact absurd rfl hdomain.1
      | afInet6 => exact absurd rfl hdomain.2
    · rename_i hdomain
      cases call with
      | failed errno => exact Or.inl ⟨Or.inr (Or.inr rfl), errno, rfl⟩
      | opened fd =>
          refine Or.inr ⟨fd, rfl, not_not.mp hsocket, ?_, rfl⟩
          cases domain with
          | afUnspec => exact absurd ⟨by decide, by decide⟩ hdomain
          | afInet => exact Or.inl rfl
          | afInet6 => exact Or.inr rfl

/-- On a socket of a known family, `pconnect` returns what the kernel did. -/
theorem pconnect_eq (w : World) {i : ConnectionSlot} {domain : SaFamily} (call : ConnectReturn)
    (hsocket : (w.peer i).tcp.socket ≠ none) (hdomain : domain = .afInet ∨ domain = .afInet6) :
    ∃ perrno, w.pconnect i domain call =
      (w.setPeer i { w.peer i with tcp := { (w.peer i).tcp with perrno } }, call) := by
  have hknown : ¬ (domain ≠ .afInet ∧ domain ≠ .afInet6) := fun h => hdomain.elim h.1 h.2
  unfold pconnect
  simp only
  rw [if_neg hsocket, if_neg hknown]
  cases call with
  | connected => exact ⟨noError, rfl⟩
  | inprogress => exact ⟨einprogress, rfl⟩
  | failed errno => exact ⟨errno, rfl⟩

theorem setPeer_setPeer (w : World) (i : ConnectionSlot) (p q : PeerConnection) :
    (w.setPeer i p).setPeer i q = w.setPeer i q := by
  unfold setPeer SlotPool.setObject
  simp only [Function.update_idem]

/-- The attempt to connect to a peer fails, by what the peer holds and by what the system calls return. -/
def AttemptFails (w : World) (i : ConnectionSlot) (calls : ConnectCalls) : Prop :=
  (w.peer i).tcp.socket ≠ none ∨ (w.peer i).store.saFamily = .afUnspec ∨ calls.reportError = true

/-- What `connect` does: it opens no socket, or opens one and closes it again, or goes on with it. -/
inductive ConnectOutcome (w : World) (i : ConnectionSlot) (calls : ConnectCalls) : World × Bool → Prop
  | refused (perrno : Int) : w.AttemptFails i calls → ConnectOutcome w i calls
      (w.setPeer i { w.peer i with tcp := { (w.peer i).tcp with perrno } }, false)
  | closed (fd : Fd) : calls.socket = .opened fd → (w.peer i).tcp.socket = none → w.AttemptFails i calls →
      ConnectOutcome w i calls
        (((w.openFd fd).closeFd (some fd)).setPeer i { w.peer i with tcp := ⟨none, noError⟩ }, false)
  | connected (fd : Fd) (perrno : Int) : calls = ⟨.opened fd, .connected⟩ → (w.peer i).tcp.socket = none →
      (w.peer i).store.saFamily ≠ .afUnspec → ConnectOutcome w i calls ((w.openFd fd).setPeer i
        { w.peer i with tcp := ⟨some fd, perrno⟩ }.connectedImmediately, true)
  | inprogress (fd : Fd) (perrno : Int) : calls = ⟨.opened fd, .inprogress⟩ → (w.peer i).tcp.socket = none →
      (w.peer i).store.saFamily ≠ .afUnspec → ConnectOutcome w i calls ((w.openFd fd).setPeer i
        ({ w.peer i with tcp := ⟨some fd, perrno⟩ }.armConnectionWatchers .write), true)

theorem connect_outcome (w : World) (i : ConnectionSlot) (calls : ConnectCalls) :
    ConnectOutcome (w.check .connectSource ((w.peer i).source == .tracker)) i calls (w.connect i calls) := by
  let w₀ := w.check .connectSource ((w.peer i).source == .tracker)
  unfold connect
  simp only
  rcases openSocket_cases w₀ i (w₀.peer i).store.saFamily calls.socket with
    ⟨hfails, perrno, hopen⟩ | ⟨fd, hcall, hsocket, hdomain, hopen⟩
  · rw [hopen]
    refine .refused perrno (hfails.imp id (Or.imp id fun hfd => ?_))
    obtain ⟨socket, connect⟩ := calls
    cases socket with
    | failed errno => rfl
    | opened fd => cases hfd
  · rw [hopen]
    let w₁ := (w₀.openFd fd).setPeer i
      { w₀.peer i with tcp := { (w₀.peer i).tcp with socket := some fd } }
    have hpeer₁ : w₁.peer i = { w₀.peer i with tcp := { (w₀.peer i).tcp with socket := some fd } } :=
      peer_setPeer _ _ _
    have hsocket₁ : (w₁.peer i).tcp.socket ≠ none := by
      rw [hpeer₁]
      exact Option.some_ne_none fd
    obtain ⟨perrno, hconnect⟩ := pconnect_eq w₁ calls.connect hsocket₁ hdomain
    let w₂ := w₁.setPeer i { w₁.peer i with tcp := { (w₁.peer i).tcp with perrno } }
    have hpeer₂ : w₂.peer i = { w₀.peer i with tcp := ⟨some fd, perrno⟩ } := by
      rw [peer_setPeer, hpeer₁]
    have hset : ∀ p, w₂.setPeer i p = (w₀.openFd fd).setPeer i p := by
      intro p
      rw [setPeer_setPeer, setPeer_setPeer]
    have hcalls : ∀ {result}, calls.connect = result → calls = ⟨.opened fd, result⟩ := by
      rintro result rfl
      rw [← hcall]
    have hknown : (w₀.peer i).store.saFamily ≠ .afUnspec := by
      intro hunspec
      rw [hunspec] at hdomain
      exact hdomain.elim SaFamily.noConfusion SaFamily.noConfusion
    simp only
    rw [hconnect]
    cases hreturn : calls.connect with
    | failed errno =>
        have hclosed : w₂.closeSocket i =
            ((w₀.openFd fd).closeFd (some fd)).setPeer i { w₀.peer i with tcp := ⟨none, noError⟩ } := by
          calc w₂.closeSocket i
              = (w₂.setPeer i { w₂.peer i with tcp := ⟨none, noError⟩ }).closeFd
                  (w₂.peer i).tcp.socket := rfl
            _ = _ := by rw [hset, hpeer₂]; rfl
        simp only
        rw [hclosed]
        exact .closed fd hcall hsocket (Or.inr (Or.inr (hcalls hreturn ▸ rfl)))
    | connected =>
        have hstarted : (w₂.modifyPeer i fun peer => peer.connectedImmediately) =
            (w₀.openFd fd).setPeer i { w₀.peer i with tcp := ⟨some fd, perrno⟩ }.connectedImmediately := by
          rw [modifyPeer, hset, hpeer₂]
        simp only
        rw [hstarted]
        exact .connected fd perrno (hcalls hreturn) hsocket hknown
    | inprogress =>
        have hstarted : (w₂.modifyPeer i fun peer => peer.armConnectionWatchers .write) =
            (w₀.openFd fd).setPeer i
              ({ w₀.peer i with tcp := ⟨some fd, perrno⟩ }.armConnectionWatchers .write) := by
          rw [modifyPeer, hset, hpeer₂]
        simp only
        rw [hstarted]
        exact .inprogress fd perrno (hcalls hreturn) hsocket hknown

theorem not_attemptFails {calls : ConnectCalls} (hsocket : (w.peer i).tcp.socket = none)
    (hknown : (w.peer i).store.saFamily ≠ .afUnspec) (hreport : calls.reportError = false) :
    ¬ w.AttemptFails i calls := by
  rintro (hrecorded | hunspec | herror)
  · exact hrecorded hsocket
  · exact hknown hunspec
  · exact Bool.noConfusion (hreport.symm.trans herror)

theorem connect_fails_iff (w : World) (i : ConnectionSlot) (calls : ConnectCalls) :
    (w.connect i calls).2 = false ↔ w.AttemptFails i calls := by
  have houtcome := connect_outcome w i calls
  generalize w.connect i calls = result at houtcome ⊢
  cases houtcome with
  | refused perrno hfails => exact iff_of_true rfl hfails
  | closed fd _ _ hfails => exact iff_of_true rfl hfails
  | connected fd perrno hcalls hsocket hknown =>
      exact iff_of_false Bool.noConfusion (not_attemptFails hsocket hknown (hcalls ▸ rfl))
  | inprogress fd perrno hcalls hsocket hknown =>
      exact iff_of_false Bool.noConfusion (not_attemptFails hsocket hknown (hcalls ▸ rfl))

/-- What `initiate_connect` does. -/
inductive Initiated (w : World) (i : ConnectionSlot) (calls : ConnectCalls) : World × Bool → Prop
  /-- The peer is as it was, but for its last error. -/
  | fails (w₁ : World) (perrno : Int) :
      w₁.ledger = w.ledger.set i { w.peer i with tcp := ⟨(w.peer i).tcp.socket, perrno⟩ } →
      w₁.pool.availableSlots = w.pool.availableSlots → w₁.control = w.control →
      Initiated w i calls (w₁, false)
  /-- No socket was recorded, and now an attempt is in progress. -/
  | starts (w₁ : World) (p : PeerConnection) (fd : Fd) (immediate : Bool) :
      (w.peer i).tcp.socket = none → w.kernel fd = none →
      calls = ⟨.opened fd, if immediate then .connected else .inprogress⟩ →
      p.contact = (w.peer i).contact →
      ((w.peer i).source = .tracker → (w.peer i).state = .transport → (w.peer i).BuffersReset →
        Outgoing p fd immediate) →
      w₁.ledger = { w.ledger.set i p with
        kernel := w.kernel.opened fd, statistics := w.ledger.statistics.incrementInboundInflight } →
      w₁.pool.availableSlots = w.pool.availableSlots → Initiated w i calls (w₁, true)

theorem initiateConnect_initiated (w : World) (i : ConnectionSlot) (calls : ConnectCalls)
    (hfree : w.fdFree calls.socket.fd?) : Initiated w i calls (w.initiateConnect i calls) := by
  let w₀ := w.check .connectSource ((w.peer i).source == .tracker)
  have hledger₀ : w₀.ledger = w.ledger := ledger_check w (by decide) _
  have hfd : ∀ {fd}, calls.socket = .opened fd → w.kernel fd = none := by
    intro fd hcall
    rw [hcall] at hfree
    exact Option.isNone_iff_eq_none.mp hfree
  have houtcome := connect_outcome w i calls
  unfold initiateConnect
  generalize w.connect i calls = result at houtcome ⊢
  cases houtcome with
  | refused perrno =>
      refine .fails _ perrno ?_ rfl rfl
      rw [← hledger₀]
      rfl
  | closed fd hcall hsocket =>
      refine .fails _ noError ?_ rfl rfl
      have hsocket' : (w.peer i).tcp.socket = none := hsocket
      rw [← hledger₀, hsocket']
      exact Ledger.ext rfl rfl rfl rfl rfl rfl rfl rfl (closed_opened (hfd hcall)) rfl rfl rfl rfl
  | connected fd perrno hcalls hsocket =>
      refine .starts _ { w.peer i with tcp := ⟨some fd, perrno⟩ }.connectedImmediately fd true hsocket
        (hfd (congrArg ConnectCalls.socket hcalls)) hcalls rfl (fun htracker _ hbuffers => ?_) ?_ rfl
      · refine ⟨⟨?_, Or.inr rfl, fun _ => rfl, Option.some_ne_none fd, rfl, rfl⟩, htracker, rfl,
          ⟨hbuffers.recv_read, hbuffers.recv_write, hbuffers.recv_readable, hbuffers.send_read,
            hbuffers.send_write, hbuffers.send_readable⟩, fun hfalse => Bool.noConfusion hfalse⟩
        exact fun hnull => Psource.noConfusion (htracker.symm.trans hnull)
      · rw [← hledger₀]
        rfl
  | inprogress fd perrno hcalls hsocket =>
      refine .starts _ ({ w.peer i with tcp := ⟨some fd, perrno⟩ }.armConnectionWatchers .write) fd false
        hsocket (hfd (congrArg ConnectCalls.socket hcalls)) hcalls rfl
        (fun htracker hstate hbuffers => ?_) ?_ rfl
      · refine ⟨⟨?_, Or.inl hstate, ?_, Option.some_ne_none fd, rfl, rfl⟩, htracker, rfl,
          ⟨hbuffers.recv_read, hbuffers.recv_write, hbuffers.recv_readable, hbuffers.send_read,
            hbuffers.send_write, hbuffers.send_readable⟩, fun _ => ⟨hstate, rfl, rfl⟩⟩
        · exact fun hnull => Psource.noConfusion (htracker.symm.trans hnull)
        · exact fun hserver => Psource.noConfusion (htracker.symm.trans hserver)
      · rw [← hledger₀]
        rfl

/-! ### Turns that move nothing -/

theorem Takes.quiet (hpool : w.pool.WellFormed) (hscheduling : w'.Scheduling)
    (hledger : w'.ledger = w.ledger) (havailable : w'.pool.availableSlots = w.pool.availableSlots) :
    Takes infoHash w e w' :=
  ⟨hpool.congr havailable (congrArg Ledger.occupied hledger), hscheduling, .one .quiet trivial hledger⟩

theorem ledger_schedulerReturns (w : World) (answer : Bool) :
    (w.schedulerReturns answer).ledger = w.ledger := by
  unfold schedulerReturns
  cases w.current <;> rfl

theorem pool_schedulerReturns (w : World) (answer : Bool) :
    (w.schedulerReturns answer).pool = w.pool := by
  unfold schedulerReturns
  cases w.current <;> rfl

theorem scheduling_schedulerReturns (w : World) (answer : Bool) :
    (w.schedulerReturns answer).Scheduling := by
  have hcontrol : (w.schedulerReturns answer).control = .eventLoop ∨
      (w.schedulerReturns answer).control = .establishing := by
    unfold schedulerReturns
    exact ite_eq_or_eq _ _ _
  rcases hcontrol with hcontrol | hcontrol
  · exact Scheduling.of_control hcontrol (by decide)
  · exact Scheduling.of_control hcontrol (by decide)

theorem Takes.schedulerReturns (hpool : w.pool.WellFormed) (hledger : w₁.ledger = w.ledger)
    (havailable : w₁.pool.availableSlots = w.pool.availableSlots) (answer : Bool) :
    Takes infoHash w e (w₁.schedulerReturns answer) := by
  refine Takes.quiet hpool (scheduling_schedulerReturns w₁ answer) ?_ ?_
  · rw [ledger_schedulerReturns, hledger]
  · rw [pool_schedulerReturns, havailable]

theorem establisherTurn_takes (hpool : w.pool.WellFormed) : Takes infoHash w e w.establisherTurn := by
  unfold establisherTurn
  split
  · rename_i hroom
    split
    · split
      · exact Takes.schedulerReturns hpool rfl rfl false
      · rename_i havailable
        exact Takes.quiet hpool ⟨fun _ => hroom, fun _ => havailable⟩ rfl rfl
    · exact Takes.quiet hpool ⟨fun _ => hroom, fun h => Control.noConfusion h⟩ rfl rfl
    · exact Takes.quiet hpool ⟨fun _ => hroom, fun h => Control.noConfusion h⟩ rfl rfl
  · exact Takes.quiet hpool (@Scheduling.of_control _ .eventLoop rfl (by decide)) rfl rfl

/-- The counter for the cache is not in the ledger. -/
theorem ledger_cached (w : World) (discoveries : List PeerContact)
    (cache : OverwritableCache PeerContact 200) {statistics : ConnectionStatistics}
    (h : { statistics with ipv4AddrInCache := 0 } = { w.statistics with ipv4AddrInCache := 0 }) :
    ledger { w with discoveries, cache, statistics } = w.ledger :=
  Ledger.ext rfl rfl rfl rfl rfl rfl rfl rfl rfl h rfl rfl rfl

theorem drainTurn_takes (hpool : w.pool.WellFormed) (hcontrol : w.control = .draining) :
    Takes infoHash w e w.drainTurn := by
  unfold drainTurn
  split
  · refine Takes.quiet hpool (Scheduling.of_control hcontrol (by decide)) (ledger_cached w _ _ ?_) rfl
    unfold ConnectionStatistics.incrementIpv4AddrInCache
    split <;> rfl
  · simp only
    split
    · exact Takes.quiet hpool (@Scheduling.of_control _ .eventLoop rfl (by decide)) rfl rfl
    · exact Takes.quiet hpool (@Scheduling.of_control _ .eventLoop rfl (by decide)) rfl rfl

/-! ### After an attempt to connect -/

/-- The peer is deleted, or an attempt is in progress. -/
inductive Attempted (w : World) (i : ConnectionSlot) (calls : ConnectCalls) (w' : World) : Prop
  | deleted (p : PeerConnection) : p.Vacant → p.tcp.socket = (w.peer i).tcp.socket →
      w'.ledger = { w.ledger.vacate i p with
        poisoned := w.ledger.poisoned + if (w.peer i).tcp.socket = none then 0 else 1 } →
      Attempted w i calls w'
  | started (p : PeerConnection) (fd : Fd) (immediate : Bool) :
      (w.peer i).tcp.socket = none → w.kernel fd = none →
      calls = ⟨.opened fd, if immediate then .connected else .inprogress⟩ →
      p.contact = (w.peer i).contact →
      ((w.peer i).source = .tracker → (w.peer i).state = .transport → (w.peer i).BuffersReset →
        Outgoing p fd immediate) →
      w'.ledger = { w.ledger.set i p with
        kernel := w.kernel.opened fd, statistics := w.ledger.statistics.incrementInboundInflight } →
      Attempted w i calls w'

theorem afterInitiate_attempted (hpool : w.pool.WellFormed) (hi : w.pool.occupied i = true)
    (hroom : w.statistics.inboundInflight < 35) {calls : ConnectCalls}
    (hfree : w.fdFree calls.socket.fd?) :
    (afterInitiate i (w.initiateConnect i calls)).pool.WellFormed ∧
      (afterInitiate i (w.initiateConnect i calls)).Scheduling ∧
      Attempted w i calls (afterInitiate i (w.initiateConnect i calls)) := by
  have hinitiated := initiateConnect_initiated w i calls hfree
  generalize w.initiateConnect i calls = initiated at hinitiated ⊢
  cases hinitiated with
  | fails w₁ perrno hledger havailable hcontrol =>
      let q : PeerConnection := { w.peer i with tcp := ⟨(w.peer i).tcp.socket, perrno⟩ }
      have hpeer : w₁.peer i = q :=
        (congrFun (congrArg Ledger.object hledger) i).trans (Function.update_self _ _ _)
      have hocc : w₁.pool.occupied = w.pool.occupied := congrArg Ledger.occupied hledger
      have hdelete := ledger_deletePeerConnection w₁ i
      rw [hpeer, hledger] at hdelete
      refine ⟨deletePeerConnection_wellFormed (hpool.congr havailable hocc) (by rw [hocc, hi]),
        ⟨fun _ => ?_, fun _ => ?_⟩,
        .deleted q.teardownConnection (teardownConnection_vacant q) rfl (hdelete.trans ?_)⟩
      · have hstatistics := congrArg Ledger.statistics hdelete
        exact (congrArg ConnectionStatistics.inboundInflight hstatistics).trans_lt hroom
      · exact Nat.succ_ne_zero _
      · refine Ledger.ext ?_ rfl rfl ?_ rfl rfl rfl rfl rfl rfl rfl rfl rfl
        · simp only [Ledger.vacate, Ledger.set, Function.update_idem]
        · simp only [Ledger.vacate, Ledger.set, Function.update_self]
          rfl
  | starts w₁ p fd immediate hsocket hfd hcalls hcontact hout hledger havailable =>
      refine ⟨?_, scheduling_schedulerReturns w₁ true, .started p fd immediate hsocket hfd hcalls hcontact
        hout ((ledger_schedulerReturns w₁ true).trans hledger)⟩
      show (w₁.schedulerReturns true).pool.WellFormed
      rw [pool_schedulerReturns]
      exact hpool.congr havailable (congrArg Ledger.occupied hledger)

/-! ### The schedulers -/

/-- A slot that was free and is given back. -/
theorem release_acquired {pool pool' : ConnectionPool} (hpool : pool.WellFormed)
    (hacquire : pool.acquire = some (x, pool')) :
    (pool'.release x).WellFormed ∧ (pool'.release x).occupied = pool.occupied := by
  obtain ⟨hwf, hfree, heq⟩ := hpool.acquire hacquire
  have hocc : pool'.occupied = Function.update pool.occupied x true := by rw [heq]
  refine ⟨hwf.release ?_, ?_⟩
  · rw [hocc, Function.update_self]
  · show Function.update pool'.occupied x false = pool.occupied
    rw [hocc, Function.update_idem, ← hfree, Function.update_eq_self]

theorem occupy_vacate {v : Ledger} {p q : PeerConnection} (hx : v.occupied x = false)
    (hend : v.peers q.contact.endpoint = none) : (v.occupy x q).vacate x p =
      { v.set x p with generation := Function.update v.generation x (v.generation x + 1) } := by
  refine Ledger.ext ?_ rfl ?_ ?_ rfl rfl rfl rfl rfl rfl rfl rfl rfl
  · simp only [Ledger.vacate, Ledger.occupy, Ledger.set, Function.update_idem]
  · simp only [Ledger.vacate, Ledger.occupy, Ledger.set, Function.update_idem]
    rw [← hx, Function.update_eq_self]
  · simp only [Ledger.vacate, Ledger.occupy, Ledger.set, Function.update_self, Function.update_idem]
    rw [← hend, Function.update_eq_self]

theorem ledger_initializeDiscovered (w : World) (x : ConnectionSlot) (contact : PeerContact) :
    (w.initializeDiscovered x contact).ledger =
      { w.ledger.set x ((w.peer x).initializeConnection contact .tracker .transport) with
        peers := Function.update w.ledger.peers contact.endpoint (some x) } := rfl

/-- The attempt to connect to a discovered contact, in the slot acquired for it. -/
theorem Attempted.discovers (infoHash : Vector Byte 20) {contact : PeerContact} {calls : ConnectCalls}
    (hx : w.pool.occupied x = false) (hvacant : (w.peer x).Vacant)
    (hunmapped : w.peers contact.endpoint = none)
    (hledger : w₁.ledger =
      w.ledger.occupy x ((w.peer x).initializeConnection contact .tracker .transport))
    (h : Attempted w₁ x calls w') :
    (∃ x, Step infoHash w.ledger (.recycle x) w'.ledger) ∨
      ∃ x fd immediate, calls = ⟨.opened fd, if immediate then .connected else .inprogress⟩ ∧
        w.peers contact.endpoint = none ∧ Step infoHash w.ledger (.discover x immediate) w'.ledger := by
  let q := (w.peer x).initializeConnection contact .tracker .transport
  have hpeer : w₁.peer x = q :=
    (congrFun (congrArg Ledger.object hledger) x).trans (Function.update_self _ _ _)
  cases h with
  | deleted p hp hsocket hdeleted =>
      rw [hledger, hpeer] at hdeleted
      rw [hpeer] at hsocket
      refine Or.inl ⟨x, hx, p, w.ledger.poisoned + if q.tcp.socket = none then 0 else 1, hp, hsocket,
        fun hnone => ?_, hdeleted.trans ?_⟩
      · rw [if_pos (hsocket.symm.trans hnone)]
        rfl
      · rw [occupy_vacate hx hunmapped]
        rfl
  | started p fd immediate hsocket hfd hcalls hcontact hout hstarted =>
      rw [hpeer] at hsocket hcontact hout
      rw [hledger] at hstarted
      have hkernel : w₁.kernel = w.kernel := congrArg Ledger.kernel hledger
      rw [hkernel] at hfd hstarted
      have hend : p.contact.endpoint = contact.endpoint := congrArg PeerContact.endpoint hcontact
      have hbuffers := hvacant.buffers
      have houtgoing : Outgoing p fd immediate := hout rfl rfl
        ⟨hbuffers.recv_read, hbuffers.recv_write, hbuffers.recv_readable, hbuffers.send_read,
          hbuffers.send_write, hbuffers.send_readable⟩
      refine Or.inr ⟨x, fd, immediate, hcalls, hunmapped, hx, hsocket, p, fd, houtgoing, hfd, ?_,
        hstarted.trans ?_⟩
      · rw [hend]
        exact hunmapped
      · refine Ledger.ext ?_ rfl rfl ?_ rfl rfl rfl rfl rfl rfl rfl rfl rfl
        · simp only [Ledger.set, Ledger.occupy, Function.update_idem]
        · simp only [Ledger.set, Ledger.occupy, hend]
          rfl

/-- The slot acquired for a discovered contact is given back, or an attempt is in progress in it. -/
theorem schedulePeer_steps (infoHash : Vector Byte 20) (hpool : w.pool.WellFormed)
    (hregistry : Registry w.ledger) (hroom : w.statistics.inboundInflight < 35)
    (havailable : w.pool.available ≠ 0) (contact : PeerContact) {calls : ConnectCalls}
    (hfree : w.fdFree calls.socket.fd?) :
    (w.schedulePeer contact calls).pool.WellFormed ∧ (w.schedulePeer contact calls).Scheduling ∧
      ((∃ x, Step infoHash w.ledger (.recycle x) (w.schedulePeer contact calls).ledger) ∨
        ∃ x fd immediate, calls = ⟨.opened fd, if immediate then .connected else .inprogress⟩ ∧
          w.peers contact.endpoint = none ∧
          Step infoHash w.ledger (.discover x immediate) (w.schedulePeer contact calls).ledger) := by
  unfold schedulePeer
  split
  · rename_i hnone
    exact absurd hnone (SlotPool.acquire_ne_none havailable)
  · rename_i x pool' hacquire
    obtain ⟨hwf, hx, hpool'⟩ := hpool.acquire hacquire
    have hvacant : (w.peer x).Vacant := hregistry.registered.vacant x hx
    have hobject : pool'.object = w.pool.object := by rw [hpool']
    have hgeneration : pool'.generation = w.pool.generation := by rw [hpool']
    have hoccupied : pool'.occupied = Function.update w.pool.occupied x true := by rw [hpool']
    split
    · obtain ⟨hwf', hocc'⟩ := release_acquired hpool hacquire
      refine ⟨hwf', ⟨fun _ => hroom, fun _ => Nat.succ_ne_zero _⟩,
        Or.inl ⟨x, hx, w.peer x, w.ledger.poisoned, hvacant, rfl, fun _ => rfl, ?_⟩⟩
      refine Ledger.ext ?_ ?_ hocc' rfl rfl rfl rfl rfl rfl rfl rfl rfl rfl
      · exact hobject.trans (Function.update_eq_self x _).symm
      · show Function.update pool'.generation x (pool'.generation x + 1) = _
        rw [hgeneration]
        rfl
    · rename_i hunmapped
      let w₁ := { w with pool := pool' }
      let w₂ := w₁.initializeDiscovered x contact
      let q := (w.peer x).initializeConnection contact .tracker .transport
      have hledger₁ : w₁.ledger =
          { w.ledger with occupied := Function.update w.ledger.occupied x true } :=
        Ledger.ext hobject hgeneration hoccupied rfl rfl rfl rfl rfl rfl rfl rfl rfl rfl
      have hpeer₁ : w₁.peer x = w.peer x := congrFun hobject x
      have hledger : w₂.ledger = w.ledger.occupy x q := by
        rw [ledger_initializeDiscovered, hledger₁, hpeer₁]
        rfl
      have hocc₂ : w₂.pool.occupied x = true :=
        (congrFun hoccupied x).trans (Function.update_self _ _ _)
      obtain ⟨hwf', hscheduling, hattempted⟩ :=
        afterInitiate_attempted (hwf.congr rfl rfl) hocc₂ hroom hfree
      refine ⟨hwf', hscheduling, ?_⟩
      exact hattempted.discovers infoHash hx hvacant hunmapped hledger

theorem discoveredTurn_takes (hpool : w.pool.WellFormed) (hregistry : Registry w.ledger)
    (hscheduling : w.Scheduling) {calls : TurnCalls} (hcontrol : w.control = .discovering)
    (hfree : w.fdFree calls.connect.socket.fd?) :
    Takes infoHash w (.turn calls) (w.discoveredTurn calls.connect) := by
  unfold discoveredTurn
  split
  · exact Takes.schedulerReturns hpool rfl rfl false
  · rename_i contact cache hpop
    let w₁ : World := { w with cache, statistics := w.statistics.decrementIpv4AddrInCache }
    have hledger : w₁.ledger = w.ledger := ledger_cached w w.discoveries cache rfl
    have hregistry₁ : Registry w₁.ledger := by
      rw [hledger]
      exact hregistry
    have hroom : w.statistics.inboundInflight < 35 :=
      hscheduling.room (by rw [hcontrol]; exact List.mem_cons_self)
    obtain ⟨hwf, hscheduling', hsteps⟩ := @schedulePeer_steps w₁ infoHash hpool hregistry₁ hroom
      (hscheduling.available hcontrol) contact calls.connect hfree
    rw [hledger] at hsteps
    refine ⟨hwf, hscheduling', ?_⟩
    rcases hsteps with ⟨x, hstep⟩ | ⟨x, fd, immediate, hcalls, hunmapped, hstep⟩
    · exact .one (.recycle x) trivial hstep
    · exact .one (.discover x immediate) ⟨hroom, calls, fd, rfl, hcalls,
        Or.inl ⟨hcontrol, contact, cache, hpop, hunmapped⟩⟩ hstep

/-- A turn of the loop of `failed_peer_scheduler`. -/
theorem failedTurn_takes (hpool : w.pool.WellFormed) (hregistry : Registry w.ledger)
    (hscheduling : w.Scheduling) {calls : TurnCalls} (hcontrol : w.control = .retrying)
    (hfree : w.fdFree calls.connect.socket.fd?) :
    Takes infoHash w (.turn calls) (w.failedTurn calls.connect) := by
  have hroom : w.statistics.inboundInflight < 35 := hscheduling.room (by rw [hcontrol]; decide)
  unfold failedTurn
  split
  · exact Takes.schedulerReturns hpool rfl rfl false
  · rename_i r rs hqueue
    let w₁ : World := { w with
      retryQueue := rs, statistics := w.statistics.decrementPeersInRetry }
    have hledger : w₁.ledger = { w.ledger with
        retryQueue := rs, statistics := w.ledger.statistics.decrementPeersInRetry } := rfl
    simp only
    split
    · rename_i hstale
      exact ⟨hpool, ⟨fun _ => hroom, fun hc => Control.noConfusion (hcontrol.symm.trans hc)⟩,
        .one .dropRetry trivial ⟨r, rs, hqueue, hstale, hledger⟩⟩
    · rename_i hcurrent
      obtain ⟨i, generation⟩ := r
      have hgeneration : generation = w.pool.generation i := (not_not.mp hcurrent).symm
      subst hgeneration
      have hmem : ⟨i, w.pool.generation i⟩ ∈ w.retryQueue := by
        rw [hqueue]
        exact List.mem_cons_self
      have hwaiting : (w.peer i).Waiting := (hregistry.references.retry _ hmem).2 rfl
      have hi : w.pool.occupied i = true := by
        cases hocc : w.pool.occupied i with
        | true => rfl
        | false => exact absurd (hregistry.registered.vacant i hocc) hwaiting.not_vacant
      obtain ⟨hwf, hscheduling', hattempted⟩ := @afterInitiate_attempted w₁ i hpool hi hroom
        calls.connect hfree
      refine ⟨hwf, hscheduling', ?_⟩
      cases hattempted with
      | deleted p hp hsocket hdeleted =>
          have hnone : (w.peer i).tcp.socket = none := hwaiting.socket
          refine .one (.abandon i) trivial
            ⟨hi, hwaiting, p, rs, hp, hsocket.trans hnone, hqueue, hdeleted.trans ?_⟩
          have hpoisoned : (if (w₁.peer i).tcp.socket = none then 0 else 1) = 0 := if_pos hnone
          rw [hpoisoned]
          rfl
      | started p fd immediate _ hfd hcalls hcontact hout hstarted =>
          exact .one (.retry i immediate)
            ⟨hroom, calls, fd, rfl, hcalls, Or.inr ⟨hcontrol, _, rs, hqueue, rfl⟩⟩
            ⟨hi, hwaiting, p, fd, rs, hout hwaiting.source hwaiting.state hwaiting.buffers, hfd, hqueue,
              congrArg PeerContact.endpoint hcontact, hstarted⟩

/-- The peer of a disconnect update is deleted. -/
theorem disconnect_moves {calls : TurnCalls} {p : PeerConnection} (q : PeerConnection) {perrno : Int}
    {ds : List DisconnectUpdate} (hcontrol : w.control = .reconnecting) (hi : w.pool.occupied i = true)
    (hconnected : (w.peer i).Connected) (hqueue : w.disconnects = ⟨i, w.pool.generation i, perrno⟩ :: ds)
    (hledger : w₁.ledger = { w.ledger.set i q with
      disconnects := ds, statistics := w.ledger.statistics.decrementConnectedBittorrentPeers })
    (hcontact : q.contact = (w.peer i).contact) (hsocket : q.tcp.socket = (w.peer i).tcp.socket)
    (hp : p.Vacant) (hkept : p.tcp.socket = (w₁.peer i).tcp.socket)
    (hdeleted : w'.ledger = { w₁.ledger.vacate i p with
      poisoned := w₁.ledger.poisoned + if (w₁.peer i).tcp.socket = none then 0 else 1 }) :
    Moves infoHash w (.turn calls) w'.ledger := by
  have hpeer : w₁.peer i = q :=
    (congrFun (congrArg Ledger.object hledger) i).trans (Function.update_self _ _ _)
  have hrecorded : q.tcp.socket ≠ none := by
    rw [hsocket]
    exact hconnected.socket
  rw [hpeer] at hkept
  rw [hpeer, if_neg hrecorded, hledger] at hdeleted
  refine .one (.disconnect i) ⟨calls, _, ds, rfl, hcontrol, hqueue, rfl, rfl⟩
    ⟨hi, hconnected, p, _, ds, hp, hkept.trans hsocket, hqueue, rfl, rfl, hdeleted.trans ?_⟩
  refine Ledger.ext ?_ rfl rfl ?_ rfl rfl rfl rfl rfl rfl rfl rfl rfl
  · simp only [Ledger.vacate, Ledger.set, Function.update_idem]
  · simp only [Ledger.vacate, Ledger.set, Function.update_self, hcontact]
    rfl

/-- An update that is as new as its slot is about a peer that was handed over. -/
theorem connected_of_current (hregistry : Registry w.ledger) {d : DisconnectUpdate}
    {ds : List DisconnectUpdate} (hqueue : w.disconnects = d :: ds)
    (hcurrent : w.pool.generation d.peer = d.generation) : (w.peer d.peer).Connected := by
  have hmem : (d.peer, d.generation) ∈ w.ledger.references := by
    refine List.mem_append_right _ ?_
    rw [show w.ledger.disconnects = _ from hqueue]
    exact List.mem_cons_self
  exact (hregistry.references.dispatched _ hmem).2 hcurrent.symm

/-- The update of an ended session is popped, and its peer marked. -/
def popDisconnect (w : World) (d : DisconnectUpdate) (ds : List DisconnectUpdate) : World :=
  { { w with disconnects := ds }.modifyPeer d.peer fun peer => { peer with state := .disconnected } with
    statistics := w.statistics.decrementConnectedBittorrentPeers }

/-- The disconnect is counted as a failure. -/
def countDisconnect (w : World) (d : DisconnectUpdate) (ds : List DisconnectUpdate) : World :=
  (w.popDisconnect d ds).modifyPeer d.peer fun peer => { peer with failures := peer.failures + 1 }

theorem peer_popDisconnect (w : World) (d : DisconnectUpdate) (ds : List DisconnectUpdate) :
    (w.popDisconnect d ds).peer d.peer = { w.peer d.peer with state := .disconnected } :=
  peer_setPeer _ _ _

theorem peer_countDisconnect (w : World) (d : DisconnectUpdate) (ds : List DisconnectUpdate) :
    (w.countDisconnect d ds).peer d.peer = { w.peer d.peer with
      state := .disconnected, failures := (w.peer d.peer).failures + 1 } := by
  unfold countDisconnect
  rw [peer_modifyPeer, peer_popDisconnect]

theorem disconnectedTurn_current {d : DisconnectUpdate} {ds : List DisconnectUpdate}
    (hqueue : w.disconnects = d :: ds) (hcurrent : w.pool.generation d.peer = d.generation)
    (calls : ConnectCalls) : w.disconnectedTurn calls =
      if (w.peer d.peer).tcp.perrno = peerShutdown ∨ (w.peer d.peer).source = .tcpServer then
        (w.popDisconnect d ds).deletePeerConnection d.peer
      else afterInitiate d.peer ((w.countDisconnect d ds).initiateConnect d.peer calls) := by
  have hturn : w.disconnectedTurn calls =
      if ((w.popDisconnect d ds).peer d.peer).tcp.perrno = peerShutdown ∨
          ((w.popDisconnect d ds).peer d.peer).source = .tcpServer then
        (w.popDisconnect d ds).deletePeerConnection d.peer
      else afterInitiate d.peer ((w.countDisconnect d ds).initiateConnect d.peer calls) := by
    unfold disconnectedTurn
    rw [hqueue]
    simp only
    rw [if_neg (not_not.mpr hcurrent)]
    rfl
  rw [hturn, peer_popDisconnect]

/-- An update that is older than its slot is dropped. -/
theorem disconnectedTurn_stale {d : DisconnectUpdate} {ds : List DisconnectUpdate}
    (hqueue : w.disconnects = d :: ds) (hstale : w.pool.generation d.peer ≠ d.generation)
    (calls : ConnectCalls) : w.disconnectedTurn calls = { w with disconnects := ds } := by
  rw [disconnectedTurn, hqueue]
  simp only
  rw [if_pos hstale]

/-- A turn of the loop of `disconnected_peer_scheduler`. A peer that was connected still has its socket
recorded, so no attempt to reach it again starts. -/
theorem disconnectedTurn_takes (hpool : w.pool.WellFormed) (hregistry : Registry w.ledger)
    (hscheduling : w.Scheduling) {calls : TurnCalls} (hcontrol : w.control = .reconnecting)
    (hfree : w.fdFree calls.connect.socket.fd?) :
    Takes infoHash w (.turn calls) (w.disconnectedTurn calls.connect) := by
  have hroom : w.statistics.inboundInflight < 35 := hscheduling.room (by rw [hcontrol]; decide)
  have hnot : ∀ {w' : World}, w'.control = w.control → w'.statistics.inboundInflight < 35 →
      w'.Scheduling := fun hc hr =>
    ⟨fun _ => hr, fun hd => Control.noConfusion (hcontrol.symm.trans (hc.symm.trans hd))⟩
  cases hqueue : w.disconnects with
  | nil =>
      rw [disconnectedTurn, hqueue]
      exact Takes.schedulerReturns hpool rfl rfl false
  | cons d ds =>
      by_cases hcurrent : w.pool.generation d.peer = d.generation
      · have hconnected : (w.peer d.peer).Connected := connected_of_current hregistry hqueue hcurrent
        have hi : w.pool.occupied d.peer = true := by
          cases hocc : w.pool.occupied d.peer with
          | true => rfl
          | false => exact absurd (hregistry.registered.vacant d.peer hocc) hconnected.not_vacant
        let w₂ := w.popDisconnect d ds
        let w₃ := w.countDisconnect d ds
        have hpeer₃ : w₃.peer d.peer = _ := peer_countDisconnect w d ds
        obtain ⟨i, generation, perrno⟩ := d
        have hgeneration : generation = w.pool.generation i := hcurrent.symm
        subst hgeneration
        rw [disconnectedTurn_current hqueue hcurrent]
        split
        · refine ⟨deletePeerConnection_wellFormed (hpool.congr rfl rfl) hi, hnot rfl hroom, ?_⟩
          exact disconnect_moves { w.peer i with state := .disconnected } hcontrol hi hconnected hqueue rfl
            rfl rfl (teardownConnection_vacant (w₂.peer i)) rfl (ledger_deletePeerConnection w₂ i)
        · obtain ⟨hwf, hscheduling', hattempted⟩ := @afterInitiate_attempted w₃ i (hpool.congr rfl rfl) hi
            hroom calls.connect hfree
          refine ⟨hwf, hscheduling', ?_⟩
          cases hattempted with
          | deleted p hp hsocket hdeleted =>
              refine disconnect_moves (w₃.peer i) hcontrol hi hconnected hqueue ?_ (by rw [hpeer₃])
                (by rw [hpeer₃]) hp hsocket hdeleted
              refine Ledger.ext ?_ rfl rfl rfl rfl rfl rfl rfl rfl rfl rfl rfl rfl
              exact (Function.update_idem _ _ _).trans (congrArg _ (peer_setPeer _ _ _).symm)
          | started p fd immediate hsocket =>
              rw [hpeer₃] at hsocket
              exact absurd hsocket hconnected.socket
      · rw [disconnectedTurn_stale hqueue hcurrent]
        exact ⟨hpool, hnot rfl hroom, .one .dropDisconnect trivial ⟨d, ds, hqueue, hcurrent, rfl⟩⟩

/-! ### Incoming connections -/

theorem incoming_accepted {p : PeerConnection} (hp : p.Vacant) (contact : PeerContact) (fd : Fd)
    (store : SockStore) :
    Incoming (((p.initializeConnection contact .tcpServer .handshake).initializeServerSpecifics fd
      store).armConnectionWatchers .read) fd := by
  have hbuffers := hp.buffers
  refine ⟨⟨Psource.noConfusion, Or.inr rfl, fun _ => rfl, Option.some_ne_none fd, rfl, rfl⟩, rfl, rfl, ?_,
    rfl, rfl⟩
  exact ⟨hbuffers.recv_read, hbuffers.recv_write, hbuffers.recv_readable, hbuffers.send_read,
    hbuffers.send_write, hbuffers.send_readable⟩

theorem closed_of_none {kernel : Kernel} {fd : Fd} (socket : Option Fd) (hfd : kernel fd = none) :
    kernel.closed socket fd = none := by
  cases socket with
  | none => exact hfd
  | some own =>
      rw [Kernel.closed, Function.update_apply]
      split
      · rfl
      · exact hfd

theorem opened_closed (kernel : Kernel) {fd : Fd} {socket : Option Fd} (h : socket ≠ some fd) :
    (kernel.opened fd).closed socket = (kernel.closed socket).opened fd := by
  cases socket with
  | none => rfl
  | some own =>
      have hne : own ≠ fd := fun heq => h (congrArg some heq)
      exact Function.update_comm hne.symm _ _ _

theorem incrementOutbound_singleResolved (s : ConnectionStatistics) (source : Psource) :
    s.incrementOutboundInflight.singleResolved source =
      (s.singleResolved source).incrementOutboundInflight := by
  have hcomm : ∀ n, SizeT.dec (SizeT.inc n) = SizeT.inc (SizeT.dec n) := by
    intro n
    rw [SizeT.dec, SizeT.inc, SizeT.dec, SizeT.inc]
    omega
  unfold ConnectionStatistics.singleResolved
  split
  · simp only [ConnectionStatistics.incrementOutboundInflight,
      ConnectionStatistics.singleOutboundResolved, hcomm]
  · rfl

end World

namespace Ledger

variable {v : Ledger} {i x : ConnectionSlot} {p : PeerConnection} {fd : Fd}

/-- A slot is acquired for a connection that the kernel has accepted. -/
def acquired (v : Ledger) (x : ConnectionSlot) (fd : Fd) : Ledger :=
  { v with
    occupied := Function.update v.occupied x true
    kernel := v.kernel.opened fd
    statistics := v.statistics.incrementOutboundInflight }

/-- The slot may as well be acquired after another is given back. -/
theorem acquired_vacate (hix : i ≠ x) :
    (v.acquired x fd).vacate i p = (v.vacate i p).acquired x fd := by
  refine Ledger.ext rfl rfl ?_ rfl rfl rfl rfl rfl rfl rfl rfl rfl rfl
  exact Function.update_comm hix.symm _ _ _

theorem acquired_resolve_vacate (hix : i ≠ x) (hsocket : (v.object i).tcp.socket ≠ some fd) :
    ((v.acquired x fd).resolve i).vacate i p = ((v.resolve i).vacate i p).acquired x fd := by
  refine Ledger.ext rfl rfl ?_ rfl rfl rfl rfl rfl ?_ ?_ rfl rfl rfl
  · exact Function.update_comm hix.symm _ _ _
  · exact World.opened_closed v.kernel hsocket
  · exact World.incrementOutbound_singleResolved v.statistics (v.object i).source

/-- Before a peer is dispatched, its socket is closed or its own. -/
theorem Registry.socket_ne (h : Registry v) (hi : v.occupied i = true)
    (hstate : (v.object i).state ≠ .connected) (hfd : v.kernel fd = none) :
    (v.object i).tcp.socket ≠ some fd := by
  intro hsocket
  cases h.registered.staged i hi with
  | inFlight hflight =>
      have hopen := h.descriptors.flight_open i fd hflight hsocket
      rw [hfd] at hopen
      cases hopen
  | failed hfailed => exact Option.some_ne_none fd (hsocket.symm.trans hfailed.socket)
  | waiting hwaiting => exact Option.some_ne_none fd (hsocket.symm.trans hwaiting.socket)
  | connected hconnected => exact hstate hconnected.state

/-- After a peer was replaced, a free slot can take the connection from its endpoint. -/
theorem replaced_free {v' : Ledger} {infoHash : Vector Byte 20} {endpoint : Endpoint} (hix : i ≠ x)
    (hx : v.occupied x = false) (hvacant : (v.object x).Vacant) (hfd : v.kernel fd = none)
    (hend : (v.object i).contact.endpoint = endpoint) (hstep : Step infoHash v (.replace i) v') :
    v'.occupied x = false ∧ (v'.object x).Vacant ∧ v'.kernel fd = none ∧ v'.peers endpoint = none := by
  obtain ⟨-, p, -, hreplace⟩ := hstep
  have hkept : v'.occupied x = v.occupied x ∧ v'.object x = v.object x ∧ v'.peers endpoint = none := by
    subst hend
    rcases hreplace with ⟨-, -, rfl⟩ | ⟨-, -, rfl⟩
    all_goals
      exact ⟨Function.update_of_ne hix.symm _ _, Function.update_of_ne hix.symm _ _,
        Function.update_self _ _ _⟩
  have hclosed : v'.kernel fd = none := by
    rcases hreplace with ⟨-, -, rfl⟩ | ⟨-, -, rfl⟩
    · exact World.closed_of_none _ hfd
    · exact hfd
  obtain ⟨hoccupied, hobject, hpeers⟩ := hkept
  exact ⟨hoccupied.trans hx, hobject ▸ hvacant, hclosed, hpeers⟩

end Ledger

namespace World

variable {w w₁ w₂ w' : World} {i x : ConnectionSlot} {infoHash : Vector Byte 20} {e : Event}

theorem ledger_initializeAccepted (w : World) (x : ConnectionSlot) (fd : Fd) (store : SockStore) :
    (w.initializeAccepted x fd store).ledger =
      { w.ledger.set x ((((w.peer x).initializeConnection store.contact .tcpServer
          .handshake).initializeServerSpecifics fd store).armConnectionWatchers .read) with
        peers := Function.update w.ledger.peers store.contact.endpoint (some x) } := rfl

/-- A slot that was acquired for an accepted connection is given its peer. -/
theorem accept_step (infoHash : Vector Byte 20) {v : Ledger} {fd : Fd} {store : SockStore}
    (hx : v.occupied x = false) (hvacant : (v.object x).Vacant) (hfd : v.kernel fd = none)
    (hunmapped : v.peers store.contact.endpoint = none) (hledger : w₁.ledger = v.acquired x fd) :
    Step infoHash v (.accept x) (w₁.initializeAccepted x fd store).ledger := by
  have hpeer : w₁.peer x = v.object x := congrFun (congrArg Ledger.object hledger) x
  refine ⟨hx, _, fd, incoming_accepted hvacant store.contact fd store, hfd, hunmapped, ?_⟩
  rw [ledger_initializeAccepted, hpeer, hledger]
  rfl

/-- The peer that is managed under the endpoint of an accepted connection makes way for it. -/
theorem replace_step (infoHash : Vector Byte 20) {fd : Fd} (hregistry : Registry w.ledger)
    (hi : w.pool.occupied i = true) (hix : i ≠ x) (hfd : w.kernel fd = none)
    (hledger : w₁.ledger = w.ledger.acquired x fd) :
    ∃ v, Step infoHash w.ledger (.replace i) v ∧ (w₁.replacePeer i).ledger = v.acquired x fd := by
  have hpeer : w₁.peer i = w.peer i := congrFun (congrArg Ledger.object hledger) i
  by_cases hstate : (w.peer i).state = .connected
  · have hreplace : w₁.replacePeer i = w₁.deletePeerConnection i := by
      rw [replacePeer, hpeer, if_neg (not_not.mpr hstate)]
    have hsocket : (w₁.peer i).tcp.socket ≠ none := by
      rw [hpeer]
      cases hregistry.registered.staged i hi with
      | inFlight hflight =>
          exact absurd hflight.state (by rw [show (w.ledger.object i).state = _ from hstate]; decide)
      | failed hfailed => exact Pstate.noConfusion (hfailed.state.symm.trans hstate)
      | waiting hwaiting => exact Pstate.noConfusion (hwaiting.state.symm.trans hstate)
      | connected hconnected => exact hconnected.socket
    refine ⟨_, ⟨hi, (w₁.peer i).teardownConnection, teardownConnection_vacant _,
      Or.inr ⟨hstate, congrArg (fun p => p.tcp.socket) hpeer, rfl⟩⟩, ?_⟩
    rw [hreplace, ledger_deletePeerConnection, if_neg hsocket, hledger, acquired_vacate hix]
    rfl
  · have hreplace : w₁.replacePeer i = w₁.hardDeletePeerConnection i := by
      rw [replacePeer, hpeer, if_pos hstate, ← hpeer]
      rfl
    refine ⟨_, ⟨hi, { w₁.peer i with tcp := ⟨none, noError⟩ }.teardownConnection,
      teardownConnection_vacant _, Or.inl ⟨hstate, rfl, rfl⟩⟩, ?_⟩
    rw [hreplace, (Working.refl w₁ i).ledger_hardDeletePeerConnection, hledger]
    exact acquired_resolve_vacate hix (hregistry.socket_ne hi hstate hfd)

theorem replacePeer_wellFormed (hpool : w.pool.WellFormed) (hi : w.pool.occupied i = true) :
    (w.replacePeer i).pool.WellFormed := by
  unfold replacePeer
  simp only
  split
  · exact hardDeletePeerConnection_wellFormed hpool hi
  · exact deletePeerConnection_wellFormed hpool hi

theorem wellFormed_initializeAccepted (hpool : w.pool.WellFormed) (fd : Fd) (store : SockStore) :
    (w.initializeAccepted x fd store).pool.WellFormed := hpool.congr rfl rfl

/-- What `accept_peer_connection` does: nothing that lasts, or one or two moves. -/
inductive Accepted (infoHash : Vector Byte 20) (w : World) (call : AcceptReturn) (w' : World) : Prop
  | declined : w'.ledger = w.ledger → Accepted infoHash w call w'
  | accepted (x : ConnectionSlot) : Step infoHash w.ledger (.accept x) w'.ledger →
      Accepted infoHash w call w'
  | replaced (fd : Fd) (store : SockStore) (i x : ConnectionSlot) (v : Ledger) :
      call = .accepted fd store → w.pool.available ≠ 0 →
      w.peers store.contact.endpoint = some i → Step infoHash w.ledger (.replace i) v →
      Step infoHash v (.accept x) w'.ledger → Accepted infoHash w call w'

theorem acceptPeerConnection_accepted (infoHash : Vector Byte 20) (hpool : w.pool.WellFormed)
    (hregistry : Registry w.ledger) {call : AcceptReturn} (hfree : w.fdFree call.fd?) :
    (w.acceptPeerConnection call).1.pool.WellFormed ∧
      Accepted infoHash w call (w.acceptPeerConnection call).1 := by
  cases call with
  | failed errno => exact ⟨hpool, .declined rfl⟩
  | accepted fd store =>
      have hfd : w.kernel fd = none := Option.isNone_iff_eq_none.mp hfree
      unfold acceptPeerConnection
      simp only
      split
      · refine ⟨hpool, .declined ?_⟩
        exact Ledger.ext rfl rfl rfl rfl rfl rfl rfl rfl (closed_opened hfd) rfl rfl rfl rfl
      · rename_i havailable
        split
        · rename_i hnone
          exact absurd hnone (SlotPool.acquire_ne_none havailable)
        · rename_i x pool' hacquire
          obtain ⟨hwf, hx, hpool'⟩ := hpool.acquire hacquire
          let w₁ : World := { w.openFd fd with
            statistics := w.statistics.incrementOutboundInflight, pool := pool' }
          have hledger : w₁.ledger = w.ledger.acquired x fd := by
            refine Ledger.ext ?_ ?_ ?_ rfl rfl rfl rfl rfl rfl rfl rfl rfl rfl
            · show pool'.object = _
              rw [hpool']
              rfl
            · show pool'.generation = _
              rw [hpool']
              rfl
            · show pool'.occupied = _
              rw [hpool']
              rfl
          have hvacant : (w.peer x).Vacant := hregistry.registered.vacant x hx
          show ((w₁.makeWay store.contact.endpoint).initializeAccepted x fd store).pool.WellFormed ∧
            Accepted infoHash w (.accepted fd store)
              ((w₁.makeWay store.contact.endpoint).initializeAccepted x fd store)
          cases hmapped : w.peers store.contact.endpoint with
          | none =>
              have hway : w₁.makeWay store.contact.endpoint = w₁ := by
                rw [makeWay, show w₁.peers store.contact.endpoint = none from hmapped]
              rw [hway]
              exact ⟨wellFormed_initializeAccepted hwf fd store,
                .accepted x (accept_step infoHash hx hvacant hfd hmapped hledger)⟩
          | some i =>
              have hway : w₁.makeWay store.contact.endpoint = w₁.replacePeer i := by
                rw [makeWay, show w₁.peers store.contact.endpoint = some i from hmapped]
              rw [hway]
              obtain ⟨hi, hend⟩ := (hregistry.registered.peers_iff _ i).mp hmapped
              have hix : i ≠ x := by
                rintro rfl
                exact Bool.noConfusion (hi.symm.trans hx)
              have hi₁ : w₁.pool.occupied i = true := by
                rw [show w₁.pool.occupied = _ from congrArg Ledger.occupied hledger]
                exact (Function.update_of_ne hix _ _).trans hi
              obtain ⟨v, hreplace, hledger₂⟩ := replace_step infoHash hregistry hi hix hfd hledger
              obtain ⟨hxv, hvacantv, hfdv, hunmapped⟩ := replaced_free hix hx hvacant hfd hend hreplace
              exact ⟨wellFormed_initializeAccepted (replacePeer_wellFormed hwf hi₁) fd store,
                .replaced fd store i x v rfl havailable hmapped hreplace
                  (accept_step infoHash hxv hvacantv hfdv hunmapped hledger₂)⟩

/-- A turn of the loop of `server_socket_callback`. -/
theorem acceptTurn_takes (hpool : w.pool.WellFormed) (hregistry : Registry w.ledger)
    {calls : TurnCalls} {pendingAccepts : Bool} (hcontrol : w.control = .accepting pendingAccepts)
    (hfree : w.fdFree calls.accept.fd?) :
    Takes infoHash w (.turn calls) (w.acceptTurn pendingAccepts calls.accept) := by
  unfold acceptTurn
  split
  · rename_i hcondition
    obtain ⟨hquota, hroom, rfl⟩ := hcondition
    have hquota' : w.statistics.hasMetConnectionQuota = false := (Bool.not_eq_true' _).mp hquota
    obtain ⟨hwf, haccepted⟩ := acceptPeerConnection_accepted infoHash hpool hregistry hfree
    generalize w.acceptPeerConnection calls.accept = result at hwf haccepted ⊢
    obtain ⟨w₁, pending⟩ := result
    have hscheduling : World.Scheduling { w₁ with control := .accepting pending } :=
      @Scheduling.of_control _ (.accepting pending) rfl (by cases pending <;> decide)
    refine ⟨hwf, hscheduling, ?_⟩
    cases haccepted with
    | declined hledger => exact .one .quiet trivial hledger
    | accepted x hstep => exact .one (.accept x) ⟨calls, rfl, hcontrol, hquota', hroom⟩ hstep
    | replaced fd store i x v hcall havailable hmapped hreplace haccept =>
        exact .replacing i x v
          ⟨calls, fd, store, rfl, hcontrol, hquota', hroom, havailable, hcall, hmapped⟩ hreplace haccept
  · exact Takes.quiet hpool (@Scheduling.of_control _ .eventLoop rfl (by decide)) rfl rfl

end World

end TorrentEngine
