import TorrentEngine.PeerRefinement

/-! The callbacks of a peer's watchers as moves, and how far each takes the two handshakes. -/

open Transition

namespace TorrentEngine

open PeerConnection Ledger

theorem Sending.sent_of_empty {infoHash : Vector Byte 20} {p : PeerConnection} {c : Connection}
    (h : Sending infoHash p c) (hempty : p.sendBuffer.empty = true) :
    c.sent = Handshake.computeHandshake infoHash := by
  have hzero : p.sendBuffer.contents.length = 0 := by
    rw [IoRingBuffer.length_contents]
    exact beq_iff_eq.mp hempty
  have hcontents := h.contents
  rw [List.length_eq_zero_iff.mp hzero, List.append_nil] at hcontents
  exact hcontents

namespace World

variable {w w₁ w₂ w' : World} {i : ConnectionSlot} {infoHash : Vector Byte 20} {e : Event}

/-! ### One system call -/

theorem connection_transfer {p q : PeerConnection} {c : Connection} {kernel : Kernel}
    (hsocket : q.tcp.socket = p.tcp.socket) (hc : connection kernel p = some c)
    (f : Connection → Connection) :
    connection (kernel.transferred p.tcp.socket f) q = some (f c) := by
  rw [connection] at hc ⊢
  rw [hsocket]
  cases hs : p.tcp.socket with
  | none =>
      rw [hs] at hc
      cases hc
  | some fd =>
      rw [hs, Option.bind_some] at hc
      rw [Option.bind_some, Kernel.transferred, Function.update_self, hc, Option.map_some]

/-- What `send_messages` does. A part of the buffer goes to the kernel, the rest stays. -/
structure Sent (infoHash : Vector Byte 20) (w : World) (i : ConnectionSlot) (w₁ : World)
    (bufferEmpty : Bool) : Prop where
  working : Working w i w₁
  peer : ∃ perrno sendBuffer, w₁.peer i =
    { w.peer i with tcp := { (w.peer i).tcp with perrno }, sendBuffer }
  sending : ∀ c, connection w.kernel (w.peer i) = some c → Sending infoHash (w.peer i) c →
    ∃ c', connection w₁.kernel (w₁.peer i) = some c' ∧ c'.received = c.received ∧
      Sending infoHash (w₁.peer i) c' ∧
      (bufferEmpty = true → c'.sent = Handshake.computeHandshake infoHash)

theorem sendMessages_sent (infoHash : Vector Byte 20) (w : World) (i : ConnectionSlot)
    (call : SendReturn) :
    Sent infoHash w i (w.sendMessages i call).1 (w.sendMessages i call).2.2 := by
  cases call with
  | failed errno =>
      refine ⟨Working.setPeer w ⟨rfl, rfl, rfl⟩, ⟨errno, (w.peer i).sendBuffer, peer_setPeer _ _ _⟩,
        fun c hc hsending => ⟨c, ?_, rfl, ?_, fun hempty => hsending.sent_of_empty hempty⟩⟩
      · simp only [sendMessages, peer_setPeer]
        exact hc
      · simp only [sendMessages, peer_setPeer]
        exact ⟨hsending.wellFormed, hsending.contents⟩
  | accepts bytes =>
      let buffer := (w.peer i).sendBuffer
      let taken := (buffer.gather buffer.prepareRead).take bytes
      refine ⟨Working.transfer w _ ⟨rfl, rfl, rfl⟩,
        ⟨noError, buffer.commitRead taken.length, peer_setPeer _ _ _⟩,
        fun c hc hsending => ⟨{ c with sent := c.sent ++ taken }, ?_, rfl, ?_⟩⟩
      · simp only [sendMessages, peer_setPeer]
        exact @connection_transfer (w.peer i) _ c w.kernel rfl hc _
      · have htaken : taken = buffer.contents.take bytes := by
          simp only [taken, buffer]
          rw [hsending.wellFormed.gather_prepareRead]
        have hlength : taken.length ≤ buffer.readable := by
          rw [htaken, ← IoRingBuffer.length_contents buffer]
          exact List.length_take_le' _ _
        have hrest : (buffer.commitRead taken.length).contents = buffer.contents.drop taken.length :=
          IoRingBuffer.contents_commitRead buffer hlength
        have hsplit : taken ++ buffer.contents.drop taken.length = buffer.contents := by
          conv_rhs => rw [← List.take_append_drop taken.length buffer.contents]
          congr 1
          rw [htaken, List.length_take, List.take_eq_take_min]
        have hsending' : Sending infoHash ((w.sendMessages i (.accepts bytes)).1.peer i)
            { c with sent := c.sent ++ taken } := by
          simp only [sendMessages, peer_setPeer]
          refine ⟨hsending.wellFormed.commitRead hlength, ?_⟩
          simp only
          rw [hrest, List.append_assoc, hsplit]
          exact hsending.contents
        refine ⟨hsending', fun hempty => hsending'.sent_of_empty ?_⟩
        rw [← hempty]
        simp only [sendMessages, peer_setPeer]

/-- What `recv_messages` does. Delivered bytes go into the buffer. -/
structure Received (w : World) (i : ConnectionSlot) (w₁ : World) : Prop where
  working : Working w i w₁
  peer : ∃ perrno recvBuffer, w₁.peer i =
    { w.peer i with tcp := { (w.peer i).tcp with perrno }, recvBuffer }
  receiving : ∀ c, connection w.kernel (w.peer i) = some c → Receiving (w.peer i) c →
    ∃ c', connection w₁.kernel (w₁.peer i) = some c' ∧ c'.sent = c.sent ∧
      (w₁.peer i).recvBuffer.WellFormed ∧ (w₁.peer i).recvBuffer.read = 0 ∧
      (w₁.peer i).recvBuffer.contents = c'.received

theorem recvMessages_received (w : World) (i : ConnectionSlot) (call : RecvReturn) :
    Received w i (w.recvMessages i call).1 := by
  cases call with
  | failed errno =>
      refine ⟨Working.setPeer w ⟨rfl, rfl, rfl⟩, ⟨errno, (w.peer i).recvBuffer, peer_setPeer _ _ _⟩,
        fun c hc hreceiving => ⟨c, ?_, rfl, ?_⟩⟩
      · simp only [recvMessages, peer_setPeer]
        exact hc
      · simp only [recvMessages, peer_setPeer]
        exact ⟨hreceiving.wellFormed, hreceiving.read, hreceiving.contents⟩
  | delivers bytes =>
      let buffer := (w.peer i).recvBuffer
      let given := bytes.take buffer.prepareWrite.preparedBytes
      by_cases hgiven : given = []
      · have heq : (w.recvMessages i (.delivers bytes)).1 =
            w.setPeer i { w.peer i with tcp := { (w.peer i).tcp with perrno := peerShutdown } } := by
          rw [recvMessages]
          simp only
          rw [if_pos hgiven]
        rw [heq]
        refine ⟨Working.setPeer w ⟨rfl, rfl, rfl⟩, ⟨peerShutdown, buffer, peer_setPeer _ _ _⟩,
          fun c hc hreceiving => ⟨c, ?_, rfl, ?_⟩⟩
        · rw [peer_setPeer]
          exact hc
        · rw [peer_setPeer]
          exact ⟨hreceiving.wellFormed, hreceiving.read, hreceiving.contents⟩
      · have heq : (w.recvMessages i (.delivers bytes)).1 =
            (w.transfer (w.peer i).tcp.socket fun c => { c with received := c.received ++ given }).setPeer i
              { w.peer i with
                tcp := { (w.peer i).tcp with perrno := noError }
                recvBuffer := buffer.produce given } := by
          rw [recvMessages]
          simp only
          rw [if_neg hgiven]
        rw [heq]
        refine ⟨Working.transfer w _ ⟨rfl, rfl, rfl⟩,
          ⟨noError, buffer.produce given, peer_setPeer _ _ _⟩, fun c hc hreceiving => ?_⟩
        have hfit : given.length ≤ 68 - buffer.readable := by
          have hprepared := hreceiving.wellFormed.preparedBytes_prepareWrite
          rw [← hprepared]
          exact List.length_take_le _ _
        refine ⟨{ c with received := c.received ++ given }, ?_, rfl, ?_⟩
        · rw [peer_setPeer]
          exact @connection_transfer (w.peer i) _ c w.kernel rfl hc _
        · rw [peer_setPeer]
          refine ⟨hreceiving.wellFormed.produce hfit, ?_, ?_⟩
          · simp only
            rw [IoRingBuffer.produce_read]
            exact hreceiving.read
          · simp only
            rw [hreceiving.wellFormed.contents_produce hfit, hreceiving.contents]

/-- What `encodeHandshake` does. -/
structure Encoded (infoHash : Vector Byte 20) (w : World) (i : ConnectionSlot) (w₁ : World) : Prop where
  working : Working w i w₁
  kernel : w₁.kernel = w.kernel
  peer : ∃ sendBuffer outgoingFrameCursor, w₁.peer i =
    { w.peer i with sendBuffer, outgoingFrameCursor }
  sending : ∀ c, c.sent = [] → (w.peer i).sendBuffer.read = 0 → (w.peer i).sendBuffer.write = 0 →
    (w.peer i).sendBuffer.readable = 0 → Sending infoHash (w₁.peer i) c

theorem encodeHandshake_encoded (infoHash : Vector Byte 20) (w : World) (i : ConnectionSlot) :
    Encoded infoHash w i (w.encodeHandshake infoHash i) := by
  let buffer := (w.peer i).sendBuffer
  let encoded := Handshake.encode (Handshake.computeHandshake infoHash) buffer 0
  have hpeer : (w.encodeHandshake infoHash i).peer i =
      { w.peer i with sendBuffer := encoded.buffer, outgoingFrameCursor := encoded.cursor } :=
    peer_modifyPeer (w.check .sendBufferEmpty buffer.empty) i fun peer =>
      { peer with sendBuffer := encoded.buffer, outgoingFrameCursor := encoded.cursor }
  refine ⟨?_, rfl, ⟨encoded.buffer, encoded.cursor, hpeer⟩, fun c hsent hread hwrite hreadable => ?_⟩
  · let w₁ := w.check .sendBufferEmpty buffer.empty
    let w₂ := w₁.modifyPeer i fun peer =>
      { peer with sendBuffer := encoded.buffer, outgoingFrameCursor := encoded.cursor }
    have h₁ : Working w i w₁ := Working.check w i (by decide) _
    have h₂ : Working w₁ i w₂ := Working.modifyPeer w₁ ⟨rfl, rfl, rfl⟩
    exact (h₁.trans h₂).trans (Working.check w₂ i (by decide) encoded.complete)
  · have hlength := Handshake.length_computeHandshake infoHash
    have hencoded : encoded.buffer = buffer.produce (Handshake.computeHandshake infoHash) := by
      simp only [encoded]
      rw [Handshake.encode_origin hlength hwrite hreadable]
    have hwf : buffer.WellFormed := by
      refine ⟨?_, ?_, ?_⟩
      · rw [hread]
        decide
      · rw [hreadable]
        decide
      · rw [hwrite, hread, hreadable]
    have hfit : (Handshake.computeHandshake infoHash).length ≤ 68 - buffer.readable := by
      rw [hlength, hreadable]
      decide
    have hcontents : buffer.contents = [] := by
      rw [← List.length_eq_zero_iff, IoRingBuffer.length_contents]
      exact hreadable
    rw [hpeer]
    refine ⟨?_, ?_⟩
    · rw [hencoded]
      exact hwf.produce hfit
    · rw [hsent, hencoded, hwf.contents_produce hfit, hcontents]
      rfl

/-! ### The socket callback -/

/-- The callback was entered: the event that was pending no longer is. -/
structure Entered (w : World) (i : ConnectionSlot) (w₁ : World) : Prop where
  working : Working w i w₁
  control : w₁.control = w.control
  kernel : w₁.kernel = w.kernel
  peer : w₁.peer i = { w.peer i with forSock := { (w.peer i).forSock with fed := false } }

namespace Entered

theorem connection_eq (h : Entered w i w₁) :
    connection w₁.kernel (w₁.peer i) = connection w.kernel (w.peer i) := by
  rw [h.kernel, h.peer]
  rfl

theorem inFlight (h : Entered w i w₁) (hflight : (w.peer i).InFlight) : (w₁.peer i).InFlight := by
  rw [h.peer]
  exact hflight.same ⟨rfl, rfl, rfl⟩ rfl hflight.sock rfl

theorem progress (h : Entered w i w₁) {c : Connection} (hp : Progress infoHash (w.peer i) c) :
    Progress infoHash (w₁.peer i) c := by
  rw [h.peer]
  cases hp with
  | connecting h₁ h₂ h₃ h₄ h₅ =>
      exact .connecting h₁ h₂ h₃ ⟨h₄.recv_read, h₄.recv_write, h₄.recv_readable, h₄.send_read,
        h₄.send_write, h₄.send_readable⟩ h₅
  | sending h₁ h₂ h₃ h₄ h₅ => exact .sending h₁ h₂ h₃ (h₄.congr rfl rfl) (h₅.congr rfl rfl)
  | awaiting h₁ h₂ h₃ h₄ h₅ => exact .awaiting h₁ h₂ h₃ h₄ (h₅.congr rfl rfl)
  | receiving h₁ h₂ h₃ h₄ h₅ h₆ h₇ h₈ => exact .receiving h₁ h₂ h₃ h₄ h₅ h₆ h₇ (h₈.congr rfl rfl)
  | answering h₁ h₂ h₃ h₄ h₅ h₆ => exact .answering h₁ h₂ h₃ (h₄.congr rfl rfl) h₅ h₆

end Entered

/-- The two stages of a handshake in which the socket is to be written. -/
theorem Progress.writing {p : PeerConnection} {c : Connection} (h : Progress infoHash p c)
    (hstate : p.state = .handshake) (hevent : p.forSock.event = .write) :
    Sending infoHash p c ∧ (p.source = .tracker → Receiving p c) ∧
      (p.source = .tcpServer → c.received.length = 68 ∧
        Handshake.infoHashField c.received = infoHash.toList) := by
  cases h with
  | connecting _ h₂ => exact absurd (h₂.symm.trans hstate) (by decide)
  | sending h₁ _ _ h₄ h₅ =>
      exact ⟨h₄, fun _ => h₅, fun hs => absurd (h₁.symm.trans hs) (by decide)⟩
  | awaiting _ _ h₃ => exact absurd (h₃.symm.trans hevent) (by decide)
  | receiving _ _ h₃ => exact absurd (h₃.symm.trans hevent) (by decide)
  | answering h₁ _ _ h₄ h₅ h₆ =>
      exact ⟨h₄, fun hs => absurd (h₁.symm.trans hs) (by decide), fun _ => ⟨h₅, h₆⟩⟩

/-- The two stages of a handshake in which the socket is to be read. -/
theorem Progress.reading {p : PeerConnection} {c : Connection} (h : Progress infoHash p c)
    (hstate : p.state = .handshake) (hevent : p.forSock.event = .read) :
    Receiving p c ∧
      (p.source = .tracker → c.sent = Handshake.computeHandshake infoHash) ∧
      (p.source = .tcpServer → c.sent = [] ∧ p.sendBuffer.read = 0 ∧ p.sendBuffer.write = 0 ∧
        p.sendBuffer.readable = 0) := by
  cases h with
  | connecting _ h₂ => exact absurd (h₂.symm.trans hstate) (by decide)
  | sending _ _ h₃ => exact absurd (h₃.symm.trans hevent) (by decide)
  | awaiting h₁ _ _ h₄ h₅ =>
      exact ⟨h₅, fun _ => h₄, fun hs => absurd (h₁.symm.trans hs) (by decide)⟩
  | receiving h₁ _ _ h₄ h₅ h₆ h₇ h₈ =>
      exact ⟨h₈, fun hs => absurd (h₁.symm.trans hs) (by decide), fun _ => ⟨h₇, h₆, h₄, h₅⟩⟩
  | answering _ _ h₃ => exact absurd (h₃.symm.trans hevent) (by decide)

/-- What the two ends have seen once the kernel has taken its part of the manager's handshake. -/
structure Writing (infoHash : Vector Byte 20) (p : PeerConnection) (bufferEmpty : Bool) (c : Connection) :
    Prop where
  sending : Sending infoHash p c
  tracker : p.source = .tracker → Receiving p c
  server : p.source = .tcpServer →
    c.received.length = 68 ∧ Handshake.infoHashField c.received = infoHash.toList
  sent : bufferEmpty = true → c.sent = Handshake.computeHandshake infoHash

namespace Writing

variable {p q : PeerConnection} {c : Connection} {bufferEmpty : Bool}

theorem congr (h : Writing infoHash p bufferEmpty c) (hsource : q.source = p.source)
    (hsend : q.sendBuffer = p.sendBuffer) (hrecv : q.recvBuffer = p.recvBuffer) :
    Writing infoHash q bufferEmpty c where
  sending := h.sending.congr hsend rfl
  tracker hs := (h.tracker (hsource.symm.trans hs)).congr hrecv rfl
  server hs := h.server (hsource.symm.trans hs)
  sent := h.sent

/-- The rest goes out when the socket is writable again. -/
theorem progress (h : Writing infoHash p bufferEmpty c) (hsource : p.source ≠ .null)
    (hstate : p.state = .handshake) (hevent : p.forSock.event = .write) : Progress infoHash p c := by
  cases hs : p.source with
  | null => exact absurd hs hsource
  | tracker => exact .sending hs hstate hevent h.sending (h.tracker hs)
  | tcpServer => exact .answering hs hstate hevent h.sending (h.server hs).1 (h.server hs).2

/-- A tracker's peer that has been sent everything is waited for. -/
theorem awaits (h : Writing infoHash p true c) (hs : p.source = .tracker)
    (hstate : p.state = .handshake) (hevent : p.forSock.event = .read) : Progress infoHash p c :=
  .awaiting hs hstate hevent (h.sent rfl) (h.tracker hs)

/-- A peer whose handshake was valid has been answered. -/
theorem complete (h : Writing infoHash p true c) (hs : p.source = .tcpServer) : Complete infoHash c :=
  ⟨h.sent rfl, (h.server hs).1, (h.server hs).2⟩

end Writing

theorem Entered.writing (h : Entered w i w₁) {bufferEmpty : Bool} (hsent : Sent infoHash w₁ i w₂ bufferEmpty)
    (hstate : (w.peer i).state = .handshake) (hevent : (w.peer i).forSock.event = .write)
    {c : Connection} (hc : connection w.kernel (w.peer i) = some c)
    (hp : Progress infoHash (w.peer i) c) :
    ∃ c', connection w₂.kernel (w₂.peer i) = some c' ∧ Writing infoHash (w₂.peer i) bufferEmpty c' := by
  have hstate₁ : (w₁.peer i).state = .handshake := by
    rw [h.peer]
    exact hstate
  have hevent₁ : (w₁.peer i).forSock.event = .write := by
    rw [h.peer]
    exact hevent
  obtain ⟨hsending, hreceiving, hreceived⟩ := Progress.writing (h.progress hp) hstate₁ hevent₁
  obtain ⟨c', hc', hrec, hsending', hempty⟩ := hsent.sending c (h.connection_eq.trans hc) hsending
  obtain ⟨perrno, sendBuffer, hpeer⟩ := hsent.peer
  have hsource := hsent.working.same.source
  refine ⟨c', hc', hsending', fun hs => ?_, fun hs => ?_, hempty⟩
  · rw [hpeer]
    exact (hreceiving (hsource.symm.trans hs)).congr rfl hrec
  · rw [hrec]
    exact hreceived (hsource.symm.trans hs)

/-- A handshake that is encoded into the empty buffer and sent as far as the kernel takes it. -/
theorem Encoded.writing (hencoded : Encoded infoHash w i w₁) {bufferEmpty : Bool}
    (hsent : Sent infoHash w₁ i w₂ bufferEmpty) {c : Connection}
    (hc : connection w.kernel (w.peer i) = some c) (hnone : c.sent = [])
    (hbuffer : (w.peer i).sendBuffer.read = 0 ∧ (w.peer i).sendBuffer.write = 0 ∧
      (w.peer i).sendBuffer.readable = 0)
    (htracker : (w.peer i).source = .tracker → Receiving (w.peer i) c)
    (hserver : (w.peer i).source = .tcpServer →
      c.received.length = 68 ∧ Handshake.infoHashField c.received = infoHash.toList) :
    ∃ c', connection w₂.kernel (w₂.peer i) = some c' ∧ Writing infoHash (w₂.peer i) bufferEmpty c' := by
  obtain ⟨sendBuffer, cursor, hpeer₁⟩ := hencoded.peer
  obtain ⟨perrno, sendBuffer', hpeer₂⟩ := hsent.peer
  have hc₁ : connection w₁.kernel (w₁.peer i) = some c := by
    rw [hencoded.kernel, hpeer₁]
    exact hc
  obtain ⟨hread, hwrite, hreadable⟩ := hbuffer
  obtain ⟨c', hc', hrec, hsending, hempty⟩ :=
    hsent.sending c hc₁ (hencoded.sending c hnone hread hwrite hreadable)
  have hsource : (w₂.peer i).source = (w.peer i).source :=
    (hencoded.working.trans hsent.working).same.source
  refine ⟨c', hc', hsending, fun hs => ?_, fun hs => ?_, hempty⟩
  · have hreceiving := htracker (hsource.symm.trans hs)
    rw [hpeer₂, hpeer₁]
    exact hreceiving.congr rfl hrec
  · rw [hrec]
    exact hserver (hsource.symm.trans hs)

/-- The watcher of the socket is set to another event at the end of a callback. -/
theorem Working.modified_moves (hwork : Working w i w₁) (hpool : w.pool.WellFormed)
    (hi : w.pool.occupied i = true) (hflight : (w.peer i).InFlight) (hflight₁ : (w₁.peer i).InFlight)
    (event : IoEvent)
    (hprogress : ∀ c, (w.peer i).forSock.fed = false → connection w.kernel (w.peer i) = some c →
      Progress infoHash (w.peer i) c → ∃ c', connection w₁.kernel (w₁.peer i) = some c' ∧
        Progress infoHash ((w₁.peer i).modifyPeerSocketWEvent event) c') :
    (w₁.modifyPeer i fun peer => peer.modifyPeerSocketWEvent event).pool.WellFormed ∧
      Moves infoHash w e (w₁.modifyPeer i fun peer => peer.modifyPeerSocketWEvent event).ledger := by
  have hmodified : Working w i (w₁.modifyPeer i fun peer => peer.modifyPeerSocketWEvent event) :=
    hwork.trans (Working.modifyPeer w₁ ⟨rfl, rfl, rfl⟩)
  refine hmodified.moves hpool hi hflight ?_ (fun _ => ?_) fun c hfed hc hp => ?_
  · rw [peer_modifyPeer]
    exact hflight₁.same ⟨rfl, rfl, rfl⟩ rfl rfl rfl
  · rw [peer_modifyPeer]
    rfl
  · obtain ⟨c', hc', hp'⟩ := hprogress c hfed hc hp
    refine ⟨c', ?_, ?_⟩
    · rw [peer_modifyPeer]
      exact hc'
    · rw [peer_modifyPeer]
      exact hp'

/-- `handle_peer_application_level_handshake` on a writable socket. -/
theorem handshakeWrite_moves (hpool : w.pool.WellFormed)
    (hquota : w.statistics.hasMetConnectionQuota = false) (hi : w.pool.occupied i = true)
    (hflight : (w.peer i).InFlight) (h : Entered w i w₁) (hstate : (w.peer i).state = .handshake)
    (hevent : (w.peer i).forSock.fed = false → (w.peer i).forSock.event = .write)
    (calls : SocketCalls) :
    (w₁.handshakeWrite i calls).pool.WellFormed ∧
      Moves infoHash w e (w₁.handshakeWrite i calls).ledger := by
  have hsent := sendMessages_sent infoHash w₁ i calls.send
  rw [handshakeWrite]
  generalize w₁.sendMessages i calls.send = res at hsent ⊢
  obtain ⟨w₂, ok, bufferEmpty⟩ := res
  simp only at hsent
  have hwork : Working w i w₂ := h.working.trans hsent.working
  have hflight₁ := h.inFlight hflight
  obtain ⟨perrno, sendBuffer, hpeer⟩ := hsent.peer
  have hwriting : ∀ c, (w.peer i).forSock.fed = false →
      connection w.kernel (w.peer i) = some c → Progress infoHash (w.peer i) c →
      ∃ c', connection w₂.kernel (w₂.peer i) = some c' ∧ Writing infoHash (w₂.peer i) bufferEmpty c' :=
    fun _ hfed hc hp => h.writing hsent hstate (hevent hfed) hc hp
  have hflight₂ : (w₂.peer i).InFlight := by
    rw [hpeer]
    exact hflight₁.same ⟨rfl, rfl, rfl⟩ rfl hflight₁.sock rfl
  have hstate₂ : (w₂.peer i).state = .handshake := by
    rw [hpeer, h.peer]
    exact hstate
  cases ok with
  | false => exact handlePeerFailure_moves hpool hi hflight hwork
  | true =>
      cases bufferEmpty with
      | false =>
          have hfed₂ : (w₂.peer i).forSock.fed = false := by
            rw [hpeer, h.peer]
          refine hwork.moves hpool hi hflight hflight₂ (fun _ => hfed₂) fun c hfed hc hp => ?_
          have hevent₂ : (w₂.peer i).forSock.event = .write := by
            rw [hpeer, h.peer]
            exact hevent hfed
          obtain ⟨c', hc', hwrote⟩ := hwriting c hfed hc hp
          exact ⟨c', hc', hwrote.progress hflight₂.source hstate₂ hevent₂⟩
      | true =>
          simp only
          cases hs : (w₂.peer i).source with
          | null => exact absurd hs hflight₂.source
          | tracker =>
              refine hwork.modified_moves hpool hi hflight hflight₂ .read fun c hfed hc hp => ?_
              obtain ⟨c', hc', hwrote⟩ := hwriting c hfed hc hp
              have hmodified : Writing infoHash ((w₂.peer i).modifyPeerSocketWEvent .read) true c' :=
                hwrote.congr rfl rfl rfl
              exact ⟨c', hc', hmodified.awaits hs hstate₂ rfl⟩
          | tcpServer =>
              refine handlePeerConnectionAndDispatch_moves hpool hquota hi hflight hwork
                fun c hfed hc hp => ?_
              obtain ⟨c', hc', hwrote⟩ := hwriting c hfed hc hp
              exact ⟨c', hc', hwrote.complete hs⟩

/-- Bytes are decoded only when the handshake they are part of is whole. -/
theorem decode_received {buffer : IoRingBuffer 68} {received : List Byte} (hwf : buffer.WellFormed)
    (hread : buffer.read = 0) (hcontents : buffer.contents = received) (infoHash : Vector Byte 20)
    (peerId : Option (Vector Byte 20)) :
    ((Handshake.decode buffer infoHash peerId).1.complete = false →
      (Handshake.decode buffer infoHash peerId).2.1 = buffer ∧ buffer.readable < 68) ∧
    ((Handshake.decode buffer infoHash peerId).1.complete = true →
      (Handshake.decode buffer infoHash peerId).1.valid = true →
        received.length = 68 ∧ Handshake.infoHashField received = infoHash.toList) := by
  have hle := hwf.readable_le
  by_cases hshort : buffer.readable < 68
  · rw [Handshake.decode_incomplete hwf hshort]
    exact ⟨fun _ => ⟨rfl, hshort⟩, fun hcomplete => Bool.noConfusion hcomplete⟩
  · have hfull : buffer.readable = 68 := by omega
    obtain ⟨valid, peerId', hdecode, hvalid⟩ :=
      Handshake.decode_origin hwf hread hfull infoHash peerId
    rw [hdecode, ← hcontents]
    refine ⟨fun hcomplete => Bool.noConfusion hcomplete, fun _ h => ⟨?_, hvalid h⟩⟩
    exact (IoRingBuffer.length_contents buffer).trans hfull

/-- A handshake that a peer is answered with: encoded into the empty buffer and sent as far as the
kernel takes it. The callback then ends as it does after any send. -/
theorem answer_moves (hpool : w.pool.WellFormed)
    (hquota : w.statistics.hasMetConnectionQuota = false) (hi : w.pool.occupied i = true)
    (hflight : (w.peer i).InFlight) (hwork : Working w i w₁) (hflight₁ : (w₁.peer i).InFlight)
    (hstate₁ : (w₁.peer i).state = .handshake)
    (hserver : (w₁.peer i).source = .tcpServer)
    (hanswer : ∀ c, (w.peer i).forSock.fed = false → connection w.kernel (w.peer i) = some c →
      Progress infoHash (w.peer i) c → ∃ c', connection w₁.kernel (w₁.peer i) = some c' ∧ c'.sent = [] ∧
        c'.received.length = 68 ∧ Handshake.infoHashField c'.received = infoHash.toList ∧
        (w₁.peer i).sendBuffer.read = 0 ∧ (w₁.peer i).sendBuffer.write = 0 ∧
        (w₁.peer i).sendBuffer.readable = 0)
    (call : SendReturn) :
    let w' := match (w₁.encodeHandshake infoHash i).sendMessages i call with
      | (w, false, _) => w.handlePeerFailure i
      | (w, true, false) => w.modifyPeer i fun peer => peer.modifyPeerSocketWEvent .write
      | (w, true, true) => w.handlePeerConnectionAndDispatch i
    w'.pool.WellFormed ∧ Moves infoHash w e w'.ledger := by
  have hencoded := encodeHandshake_encoded infoHash w₁ i
  have hsent := sendMessages_sent infoHash (w₁.encodeHandshake infoHash i) i call
  generalize w₁.encodeHandshake infoHash i = w₂ at hencoded hsent ⊢
  generalize w₂.sendMessages i call = res at hsent ⊢
  obtain ⟨w₃, ok, bufferEmpty⟩ := res
  simp only at hsent
  have hwork₃ : Working w i w₃ := (hwork.trans hencoded.working).trans hsent.working
  obtain ⟨sendBuffer, cursor, hpeer₂⟩ := hencoded.peer
  obtain ⟨perrno, sendBuffer', hpeer₃⟩ := hsent.peer
  have hserver₃ : (w₃.peer i).source = .tcpServer := by
    rw [hpeer₃, hpeer₂]
    exact hserver
  have hstate₃ : (w₃.peer i).state = .handshake := by
    rw [hpeer₃, hpeer₂]
    exact hstate₁
  have hflight₃ : (w₃.peer i).InFlight := by
    rw [hpeer₃, hpeer₂]
    exact hflight₁.same ⟨rfl, rfl, rfl⟩ rfl hflight₁.sock rfl
  have hwriting : ∀ c, (w.peer i).forSock.fed = false → connection w.kernel (w.peer i) = some c →
      Progress infoHash (w.peer i) c → ∃ c', connection w₃.kernel (w₃.peer i) = some c' ∧
        Writing infoHash (w₃.peer i) bufferEmpty c' := by
    intro c hfed hc hp
    obtain ⟨c₁, hc₁, hnone, hlength, hfield, hbuffer⟩ := hanswer c hfed hc hp
    apply hencoded.writing hsent hc₁ hnone hbuffer
    · exact fun hs => absurd (hserver.symm.trans hs) (by decide)
    · exact fun _ => ⟨hlength, hfield⟩
  cases ok with
  | false => exact handlePeerFailure_moves hpool hi hflight hwork₃
  | true =>
      cases bufferEmpty with
      | false =>
          refine hwork₃.modified_moves hpool hi hflight hflight₃ .write fun c hfed hc hp => ?_
          obtain ⟨c', hc', hwrote⟩ := hwriting c hfed hc hp
          have hmodified : Writing infoHash ((w₃.peer i).modifyPeerSocketWEvent .write) false c' :=
            hwrote.congr rfl rfl rfl
          exact ⟨c', hc', hmodified.progress hflight₃.source hstate₃ rfl⟩
      | true =>
          refine handlePeerConnectionAndDispatch_moves hpool hquota hi hflight hwork₃ fun c hfed hc hp => ?_
          obtain ⟨c', hc', hwrote⟩ := hwriting c hfed hc hp
          exact ⟨c', hc', hwrote.complete hserver₃⟩

/-- What the two ends have seen once the bytes that came are in the buffer, and what the decoder makes of
them. -/
structure Reading (infoHash : Vector Byte 20) (p : PeerConnection)
    (decode : Handshake.DecodeResult × IoRingBuffer 68 × Option (Vector Byte 20)) (c : Connection) :
    Prop where
  unfinished : decode.1.complete = false → decode.2.1.WellFormed ∧ decode.2.1.read = 0 ∧
    decode.2.1.contents = c.received ∧ decode.2.1.readable < 68
  whole : decode.1.complete = true → decode.1.valid = true →
    c.received.length = 68 ∧ Handshake.infoHashField c.received = infoHash.toList
  tracker : p.source = .tracker → c.sent = Handshake.computeHandshake infoHash
  server : p.source = .tcpServer → c.sent = [] ∧ p.sendBuffer.read = 0 ∧ p.sendBuffer.write = 0 ∧
    p.sendBuffer.readable = 0

theorem Entered.reading (h : Entered w i w₁) (hreceived : Received w₁ i w₂)
    (hstate : (w.peer i).state = .handshake) (hevent : (w.peer i).forSock.event = .read)
    {c : Connection} (hc : connection w.kernel (w.peer i) = some c)
    (hp : Progress infoHash (w.peer i) c) :
    ∃ c', connection w₂.kernel (w₂.peer i) = some c' ∧ Reading infoHash (w₂.peer i)
      (Handshake.decode (w₂.peer i).recvBuffer infoHash (w₂.peer i).contact.peerId) c' := by
  have hstate₁ : (w₁.peer i).state = .handshake := by
    rw [h.peer]
    exact hstate
  have hevent₁ : (w₁.peer i).forSock.event = .read := by
    rw [h.peer]
    exact hevent
  obtain ⟨hreceiving, htracker, hserver⟩ := Progress.reading (h.progress hp) hstate₁ hevent₁
  obtain ⟨c', hc', hsent, hwf, hread, hcontents⟩ :=
    hreceived.receiving c (h.connection_eq.trans hc) hreceiving
  obtain ⟨hshort, hvalid⟩ := decode_received hwf hread hcontents infoHash (w₂.peer i).contact.peerId
  obtain ⟨perrno, recvBuffer, hpeer⟩ := hreceived.peer
  have hsource := hreceived.working.same.source
  refine ⟨c', hc', fun hcomplete => ?_, hvalid, fun hs => ?_, fun hs => ?_⟩
  · obtain ⟨hbuffer, hlt⟩ := hshort hcomplete
    rw [hbuffer]
    exact ⟨hwf, hread, hcontents, hlt⟩
  · rw [hsent]
    exact htracker (hsource.symm.trans hs)
  · rw [hsent, hpeer]
    exact hserver (hsource.symm.trans hs)

/-- `handle_peer_application_level_handshake` on a readable socket. -/
theorem handshakeRead_moves (hpool : w.pool.WellFormed)
    (hquota : w.statistics.hasMetConnectionQuota = false) (hi : w.pool.occupied i = true)
    (hflight : (w.peer i).InFlight) (h : Entered w i w₁) (hstate : (w.peer i).state = .handshake)
    (hevent : (w.peer i).forSock.fed = false → (w.peer i).forSock.event = .read)
    (calls : SocketCalls) :
    (w₁.handshakeRead infoHash i calls).pool.WellFormed ∧
      Moves infoHash w e (w₁.handshakeRead infoHash i calls).ledger := by
  have hreceived := recvMessages_received w₁ i calls.recv
  rw [handshakeRead]
  generalize w₁.recvMessages i calls.recv = res at hreceived ⊢
  obtain ⟨w₂, ok⟩ := res
  simp only at hreceived
  have hwork : Working w i w₂ := h.working.trans hreceived.working
  have hflight₁ := h.inFlight hflight
  obtain ⟨perrno, recvBuffer, hpeer₂⟩ := hreceived.peer
  cases ok with
  | false => exact handlePeerFailure_moves hpool hi hflight hwork
  | true =>
      simp only
      have hreading : ∀ c, (w.peer i).forSock.fed = false →
          connection w.kernel (w.peer i) = some c → Progress infoHash (w.peer i) c →
          ∃ c', connection w₂.kernel (w₂.peer i) = some c' ∧ Reading infoHash (w₂.peer i)
            (Handshake.decode (w₂.peer i).recvBuffer infoHash (w₂.peer i).contact.peerId) c' :=
        fun _ hfed hc hp => h.reading hreceived hstate (hevent hfed) hc hp
      have hflight₂ : (w₂.peer i).InFlight := by
        rw [hpeer₂]
        exact hflight₁.same ⟨rfl, rfl, rfl⟩ rfl hflight₁.sock rfl
      have hfed₂ : (w₂.peer i).forSock.fed = false := by
        rw [hpeer₂, h.peer]
      have hstate₂ : (w₂.peer i).state = .handshake := by
        rw [hpeer₂, h.peer]
        exact hstate
      generalize Handshake.decode (w₂.peer i).recvBuffer infoHash (w₂.peer i).contact.peerId = decode
        at hreading ⊢
      obtain ⟨decoded, buffer, peerId⟩ := decode
      simp only
      have hwork₃ := hwork.trans (Working.setPeer w₂
        (show SameAttempt (w₂.peer i) { w₂.peer i with
          recvBuffer := buffer, contact := { (w₂.peer i).contact with peerId } } from ⟨rfl, rfl, rfl⟩))
      have hpeer₃ := peer_setPeer w₂ i { w₂.peer i with
        recvBuffer := buffer, contact := { (w₂.peer i).contact with peerId } }
      have hkernel₃ : (w₂.setPeer i { w₂.peer i with
        recvBuffer := buffer, contact := { (w₂.peer i).contact with peerId } }).kernel = w₂.kernel := rfl
      generalize w₂.setPeer i { w₂.peer i with
        recvBuffer := buffer, contact := { (w₂.peer i).contact with peerId } } = w₃
        at hwork₃ hpeer₃ hkernel₃ ⊢
      have hconn₃ : connection w₃.kernel (w₃.peer i) = connection w₂.kernel (w₂.peer i) := by
        rw [hkernel₃, hpeer₃]
        rfl
      have hflight₃ : (w₃.peer i).InFlight := by
        rw [hpeer₃]
        exact hflight₂.same ⟨rfl, rfl, rfl⟩ rfl hflight₂.sock rfl
      have hfed₃ : (w₃.peer i).forSock.fed = false := by
        rw [hpeer₃]
        exact hfed₂
      cases hcomplete : decoded.complete with
      | false =>
          rw [Bool.not_false, if_pos rfl]
          refine hwork₃.moves hpool hi hflight hflight₃ (fun _ => hfed₃) fun c hfed hc hp => ?_
          obtain ⟨c', hc', hread⟩ := hreading c hfed hc hp
          have hreceiving := hread.unfinished hcomplete
          have hevent₂ : (w₂.peer i).forSock.event = .read := by
            rw [hpeer₂, h.peer]
            exact hevent hfed
          refine ⟨c', hconn₃.trans hc', ?_⟩
          rw [hpeer₃]
          cases hs : (w₂.peer i).source with
          | null => exact absurd hs hflight₂.source
          | tracker =>
              obtain ⟨hwf, hzero, hcontents, hlt⟩ := hreceiving
              exact .awaiting hs hstate₂ hevent₂ (hread.tracker hs) ⟨hwf, hzero, hcontents, hlt⟩
          | tcpServer =>
              obtain ⟨hwf, hzero, hcontents, hlt⟩ := hreceiving
              obtain ⟨hsent, h₁, h₂, h₃⟩ := hread.server hs
              exact .receiving hs hstate₂ hevent₂ h₂ h₃ h₁ hsent ⟨hwf, hzero, hcontents, hlt⟩
      | true =>
          rw [Bool.not_true, if_neg Bool.false_ne_true]
          cases hvalid : decoded.valid with
          | false =>
              rw [Bool.not_false, if_pos rfl]
              exact hardDeletePeerConnection_moves hpool hi hflight hwork₃
          | true =>
              rw [Bool.not_true, if_neg Bool.false_ne_true]
              cases hs : (w₂.peer i).source with
              | null => exact absurd hs hflight₂.source
              | tracker =>
                  refine handlePeerConnectionAndDispatch_moves hpool hquota hi hflight hwork₃
                    fun c hfed hc hp => ?_
                  obtain ⟨c', hc', hread⟩ := hreading c hfed hc hp
                  obtain ⟨hlength, hfield⟩ := hread.whole hcomplete hvalid
                  exact ⟨c', hconn₃.trans hc', hread.tracker hs, hlength, hfield⟩
              | tcpServer =>
                  refine answer_moves hpool hquota hi hflight hwork₃ hflight₃ ?_ ?_
                    (fun c hfed hc hp => ?_) calls.send
                  · rw [hpeer₃]
                    exact hstate₂
                  · rw [hpeer₃]
                    exact hs
                  · obtain ⟨c', hc', hread⟩ := hreading c hfed hc hp
                    obtain ⟨hlength, hfield⟩ := hread.whole hcomplete hvalid
                    obtain ⟨hsent, hbuffer⟩ := hread.server hs
                    rw [hpeer₃]
                    refine ⟨c', ?_, hsent, hlength, hfield, hbuffer⟩
                    rw [← hpeer₃]
                    exact hconn₃.trans hc'

theorem peerTransportLevelConnected_working (w : World) (i : ConnectionSlot) (call : SockoptReturn) :
    Working w i (w.peerTransportLevelConnected i call).1 ∧
      ((w.peerTransportLevelConnected i call).2 = true →
        (w.peerTransportLevelConnected i call).1.peer i = w.peer i ∧
        (w.peerTransportLevelConnected i call).1.kernel = w.kernel) := by
  cases call with
  | failed => exact ⟨Working.check w i (by decide) false, fun _ => ⟨rfl, rfl⟩⟩
  | error error =>
      rw [peerTransportLevelConnected]
      split
      · refine ⟨?_, fun hok => Bool.noConfusion hok⟩
        exact @Working.modifyPeer w i
          (fun peer => { peer with tcp := { peer.tcp with perrno := error } }) ⟨rfl, rfl, rfl⟩
      · exact ⟨Working.refl w i, fun _ => ⟨rfl, rfl⟩⟩

/-- The peer's buffers are at their origin, so that nothing has been received. -/
theorem receiving_of_reset {p : PeerConnection} {c : Connection} (h : p.BuffersReset)
    (hc : c.received = []) : Receiving p c := by
  have hcontents : p.recvBuffer.contents = [] := by
    rw [← List.length_eq_zero_iff, IoRingBuffer.length_contents]
    exact h.recv_readable
  refine ⟨⟨?_, ?_, ?_⟩, h.recv_read, hcontents.trans hc.symm, ?_⟩
  · rw [h.recv_read]
    decide
  · rw [h.recv_readable]
    decide
  · rw [h.recv_write, h.recv_read, h.recv_readable]
  · rw [h.recv_readable]
    decide

/-- `handle_peer_transport_level_initiations`. -/
theorem transport_moves (hpool : w.pool.WellFormed) (hi : w.pool.occupied i = true)
    (hflight : (w.peer i).InFlight) (h : Entered w i w₁) (hstate : (w.peer i).state = .transport)
    (event : IoEvent) (calls : SocketCalls) :
    (w₁.handlePeerTransportLevelInitiations infoHash i event calls).pool.WellFormed ∧
      Moves infoHash w e (w₁.handlePeerTransportLevelInitiations infoHash i event calls).ledger := by
  have hflight₁ := h.inFlight hflight
  cases event with
  | read =>
      refine h.working.moves hpool hi hflight hflight₁ (fun _ => ?_) fun c hfed hc hp =>
        ⟨c, h.connection_eq.trans hc, h.progress hp⟩
      show (w₁.peer i).forSock.fed = false
      rw [h.peer]
  | write =>
      rw [handlePeerTransportLevelInitiations]
      obtain ⟨hconnected, hok⟩ := peerTransportLevelConnected_working w₁ i calls.getsockopt
      generalize w₁.peerTransportLevelConnected i calls.getsockopt = res at hconnected hok ⊢
      obtain ⟨w₂, ok⟩ := res
      have hwork₂ : Working w i w₂ := h.working.trans hconnected
      cases ok with
      | false => exact handlePeerFailure_moves hpool hi hflight hwork₂
      | true =>
          obtain ⟨hpeer₂, hkernel₂⟩ := hok rfl
          simp only at hpeer₂ hkernel₂ ⊢
          have hwork₃ : Working w i (w₂.modifyPeer i fun peer => { peer with state := .handshake }) :=
            hwork₂.trans (Working.modifyPeer w₂ ⟨rfl, rfl, rfl⟩)
          have hpeer₃ := peer_modifyPeer w₂ i fun peer => { peer with state := .handshake }
          have hkernel₃ : (w₂.modifyPeer i fun peer => { peer with state := .handshake }).kernel =
              w.kernel := hkernel₂.trans h.kernel
          generalize w₂.modifyPeer i (fun peer => { peer with state := .handshake }) = w₃
            at hwork₃ hpeer₃ hkernel₃ ⊢
          rw [hpeer₂, h.peer] at hpeer₃
          have hencoded := encodeHandshake_encoded infoHash w₃ i
          have hsent := sendMessages_sent infoHash (w₃.encodeHandshake infoHash i) i calls.send
          generalize w₃.encodeHandshake infoHash i = w₄ at hencoded hsent ⊢
          generalize w₄.sendMessages i calls.send = res at hsent ⊢
          obtain ⟨w₅, ok, bufferEmpty⟩ := res
          simp only at hsent
          have hwork₅ : Working w i w₅ := (hwork₃.trans hencoded.working).trans hsent.working
          obtain ⟨sendBuffer, cursor, hpeer₄⟩ := hencoded.peer
          obtain ⟨perrno, sendBuffer', hpeer₅⟩ := hsent.peer
          have hwriting : ∀ c, (w.peer i).forSock.fed = false →
              connection w.kernel (w.peer i) = some c → Progress infoHash (w.peer i) c →
              (w.peer i).source = .tracker ∧ ∃ c', connection w₅.kernel (w₅.peer i) = some c' ∧
                Writing infoHash (w₅.peer i) bufferEmpty c' := by
            intro c _ hc hp
            cases hp with
            | connecting htracker _ _ hreset hfresh =>
                have hreceiving : Receiving (w.peer i) c := receiving_of_reset hreset (by rw [hfresh]; rfl)
                have hc₃ : connection w₃.kernel (w₃.peer i) = some c := by
                  rw [hkernel₃, hpeer₃]
                  exact hc
                refine ⟨htracker, ?_⟩
                apply hencoded.writing hsent hc₃ (by rw [hfresh]; rfl)
                · rw [hpeer₃]
                  exact ⟨hreset.send_read, hreset.send_write, hreset.send_readable⟩
                · rw [hpeer₃]
                  exact fun _ => hreceiving.congr rfl rfl
                · rw [hpeer₃]
                  exact fun hs => absurd (htracker.symm.trans hs) (by decide)
            | sending _ h₂ => exact absurd (h₂.symm.trans hstate) (by decide)
            | awaiting _ h₂ => exact absurd (h₂.symm.trans hstate) (by decide)
            | receiving _ h₂ => exact absurd (h₂.symm.trans hstate) (by decide)
            | answering _ h₂ => exact absurd (h₂.symm.trans hstate) (by decide)
          have hflight₅ : (w₅.peer i).InFlight := by
            rw [hpeer₅, hpeer₄, hpeer₃]
            exact ⟨hflight.source, Or.inr rfl, fun _ => rfl, hflight.socket, hflight.sock, hflight.timer⟩
          have hstate₅ : (w₅.peer i).state = .handshake := by
            rw [hpeer₅, hpeer₄, hpeer₃]
          have hsource₅ : (w₅.peer i).source = (w.peer i).source := hwork₅.same.source
          cases ok with
          | false => exact handlePeerFailure_moves hpool hi hflight hwork₅
          | true =>
              cases bufferEmpty with
              | true =>
                  refine hwork₅.modified_moves hpool hi hflight hflight₅ .read fun c hfed hc hp => ?_
                  obtain ⟨htracker, c', hc', hwrote⟩ := hwriting c hfed hc hp
                  have hmodified : Writing infoHash ((w₅.peer i).modifyPeerSocketWEvent .read) true c' :=
                    hwrote.congr rfl rfl rfl
                  exact ⟨c', hc', hmodified.awaits (hsource₅.trans htracker) hstate₅ rfl⟩
              | false =>
                  refine hwork₅.modified_moves hpool hi hflight hflight₅ .write fun c hfed hc hp => ?_
                  obtain ⟨-, c', hc', hwrote⟩ := hwriting c hfed hc hp
                  have hmodified : Writing infoHash ((w₅.peer i).modifyPeerSocketWEvent .write) false c' :=
                    hwrote.congr rfl rfl rfl
                  exact ⟨c', hc', hmodified.progress hflight₅.source hstate₅ rfl⟩

/-- The callback enters, and then chooses by the quota, the event and the state. -/
theorem peerSocketCallback_entered (infoHash : Vector Byte 20) (w : World) (i : ConnectionSlot)
    (revents : Revents) (calls : SocketCalls) :
    ∃ w₁, Entered w i w₁ ∧ w.peerSocketCallback infoHash i revents calls =
      if w₁.statistics.hasMetConnectionQuota then w₁.hardDeletePeerConnection i
      else
        match revents with
        | .error => w₁.handlePeerFailure i
        | .io event =>
            match (w₁.peer i).state with
            | .transport | .disconnected | .failed =>
                w₁.handlePeerTransportLevelInitiations infoHash i event calls
            | .handshake => w₁.handlePeerApplicationLevelHandshake infoHash i event calls
            | .null | .connected => w₁.hardDeletePeerConnection i := by
  let w₀ := w.modifyPeer i fun peer => { peer with forSock := { peer.forSock with fed := false } }
  let w₁ := w₀.check .callbackState ((w₀.peer i).state != .connected)
  have h₀ : Working w i w₀ := Working.modifyPeer w ⟨rfl, rfl, rfl⟩
  have h₁ : Working w i w₁ := h₀.trans (Working.check w₀ i (by decide) _)
  have hpeer : w₀.peer i = { w.peer i with forSock := { (w.peer i).forSock with fed := false } } :=
    peer_modifyPeer w i _
  exact ⟨w₁.check .callbackSource ((w₁.peer i).source != .null),
    ⟨h₁.trans (Working.check w₁ i (by decide) _), rfl, rfl, hpeer⟩, rfl⟩

/-- **`peer_socket_callback` makes one move.** -/
theorem peerSocketCallback_moves (hpool : w.pool.WellFormed) (hregistry : Registry w.ledger)
    {revents : Revents} (hready : Ready (w.peer i) revents) (calls : SocketCalls) :
    (w.peerSocketCallback infoHash i revents calls).pool.WellFormed ∧
      Moves infoHash w e (w.peerSocketCallback infoHash i revents calls).ledger := by
  have hnot : ¬ (w.peer i).forSock.Stopped := by
    rintro ⟨hactive, hfed⟩
    cases revents with
    | error => exact Bool.noConfusion (hactive.symm.trans hready)
    | io event =>
        rcases hready with ⟨h, -⟩ | ⟨h, -⟩
        · exact Bool.noConfusion (hactive.symm.trans h)
        · exact Bool.noConfusion (hfed.symm.trans h)
  have hi : w.pool.occupied i = true := by
    cases hocc : w.pool.occupied i with
    | true => rfl
    | false => exact absurd (hregistry.registered.vacant i hocc).sock hnot
  have hflight : (w.peer i).InFlight := (hregistry.registered.staged i hi).inFlight_of_sock hnot
  obtain ⟨w₁, h, hcallback⟩ := peerSocketCallback_entered infoHash w i revents calls
  have hstate₁ : (w₁.peer i).state = (w.peer i).state := by rw [h.peer]
  have hevent : ∀ event, revents = .io event → (w.peer i).forSock.fed = false →
      (w.peer i).forSock.event = event := by
    rintro event rfl hfed
    rcases hready with ⟨-, h⟩ | ⟨h, -⟩
    · exact h.symm
    · exact absurd (hfed.symm.trans h) Bool.noConfusion
  rw [hcallback]
  split
  · exact hardDeletePeerConnection_moves hpool hi hflight h.working
  · rename_i hquota₁
    have hquota : w.statistics.hasMetConnectionQuota = false := by
      rw [← h.working.hasMetConnectionQuota]
      exact Bool.eq_false_iff.mpr hquota₁
    cases revents with
    | error => exact handlePeerFailure_moves hpool hi hflight h.working
    | io event =>
        simp only
        rcases hflight.state with hstate | hstate
        · rw [hstate₁, hstate]
          exact transport_moves hpool hi hflight h hstate event calls
        · rw [hstate₁, hstate]
          cases event with
          | write => exact handshakeWrite_moves hpool hquota hi hflight h hstate (hevent .write rfl) calls
          | read => exact handshakeRead_moves hpool hquota hi hflight h hstate (hevent .read rfl) calls

/-! ### The timer callback -/

/-- The timer has gone off, and its watcher is stopped. -/
def timedOut (w : World) (i : ConnectionSlot) : World :=
  (w.modifyPeer i fun peer => { peer with forTimer := peer.forTimer.stop }).check .timerState
    ((w.peer i).state != .connected)

/-- A failed peer is due for the next attempt. -/
def requeued (w : World) (i : ConnectionSlot) : World :=
  { w.setPeer i { (w.peer i).stopConnectionWatchers with state := .transport } with
    retryQueue := w.retryQueue ++ [⟨i, w.pool.generation i⟩]
    statistics := w.statistics.decrementFailed.incrementPeersInRetry }

theorem peer_timedOut (w : World) (i : ConnectionSlot) :
    (w.timedOut i).peer i = { w.peer i with forTimer := (w.peer i).forTimer.stop } := peer_setPeer w i _

theorem peerTimerCallback_eq (w : World) (i : ConnectionSlot) : w.peerTimerCallback i =
    if (w.peer i).state = .failed then ((w.timedOut i).requeued i).sendNotification
    else (w.timedOut i).handlePeerFailure i := by
  have hpeer : ∀ (u : World) (a : Assertion) (holds : Bool), (u.check a holds).peer i = u.peer i :=
    fun _ _ _ => rfl
  unfold peerTimerCallback timedOut requeued modifyPeer
  simp only [peer_setPeer, hpeer]
  rfl

/-- **`peer_timer_callback` makes one move.** -/
theorem peerTimerCallback_moves (hpool : w.pool.WellFormed) (hregistry : Registry w.ledger)
    (hready : (w.peer i).forTimer.active = true) :
    (w.peerTimerCallback i).pool.WellFormed ∧ Moves infoHash w e (w.peerTimerCallback i).ledger := by
  have hi : w.pool.occupied i = true := by
    cases hocc : w.pool.occupied i with
    | true => rfl
    | false => exact Bool.noConfusion ((hregistry.registered.vacant i hocc).timer.symm.trans hready)
  let w₁ := w.timedOut i
  have hpeer : w₁.peer i = { w.peer i with forTimer := (w.peer i).forTimer.stop } := peer_timedOut w i
  have h : Working w i w₁ :=
    Working.trans (Working.modifyPeer w ⟨rfl, rfl, rfl⟩) (Working.check _ i (by decide) _)
  let p := { (w₁.peer i).stopConnectionWatchers with state := .transport }
  have hledger : (w₁.requeued i).ledger = { w₁.ledger.set i p with
      retryQueue := w₁.ledger.retryQueue ++ [⟨i, w₁.ledger.generation i⟩]
      statistics := w₁.ledger.statistics.decrementFailed.incrementPeersInRetry } := by rfl
  rw [peerTimerCallback_eq]
  cases hregistry.registered.staged i hi with
  | inFlight hflight =>
      rw [if_neg]
      · exact handlePeerFailure_moves hpool hi hflight h
      · intro hfailed
        have hflying : (w.peer i).state = .transport ∨ (w.peer i).state = .handshake := hflight.state
        rw [hfailed] at hflying
        rcases hflying with hflying | hflying <;> cases hflying
  | failed hfailed =>
      have hstate' : (w.peer i).state = .failed := hfailed.state
      rw [if_pos hstate']
      refine ⟨hpool.congr h.available h.occupied, .one (.requeue i) trivial
        ⟨hi, hfailed, p, ?_, h.same.endpoint, ?_⟩⟩
      · refine ⟨h.same.source.trans hfailed.source, rfl, h.same.socket.trans hfailed.socket,
          ⟨rfl, rfl⟩, rfl, ?_⟩
        have hbuffers : (w₁.peer i).BuffersReset := by
          rw [hpeer]
          have hb := hfailed.buffers
          exact ⟨hb.recv_read, hb.recv_write, hb.recv_readable, hb.send_read, hb.send_write,
            hb.send_readable⟩
        exact ⟨hbuffers.recv_read, hbuffers.recv_write, hbuffers.recv_readable, hbuffers.send_read,
          hbuffers.send_write, hbuffers.send_readable⟩
      · rw [ledger_sendNotification, hledger, h.ledger]
        refine Ledger.ext ?_ rfl rfl rfl rfl rfl rfl rfl rfl rfl rfl rfl rfl
        simp only [Ledger.set, Function.update_idem]
  | waiting hwaiting => exact Bool.noConfusion (hwaiting.timer.symm.trans hready)
  | connected hconnected => exact Bool.noConfusion (hconnected.timer.symm.trans hready)

/-! ### What a callback leaves alone -/

/-- The contacts in the cache, and the counter that mirrors their number. -/
def contacts (w : World) : OverwritableCache PeerContact 200 × Nat :=
  (w.cache, w.statistics.ipv4AddrInCache)

/-- Where the manager stands, and the contacts it has found. -/
def aside (w : World) : Control × OverwritableCache PeerContact 200 × Nat := (w.control, w.contacts)

theorem aside_singleResolved (w : World) (source : Psource) :
    (w.singleResolved source).aside = w.aside := by
  have hcount : (w.statistics.singleResolved source).ipv4AddrInCache = w.statistics.ipv4AddrInCache := by
    unfold ConnectionStatistics.singleResolved
    split <;> rfl
  rw [aside, aside, contacts, contacts, ← hcount]
  unfold singleResolved
  split <;> rfl

theorem aside_deletePeerConnection (w : World) (i : ConnectionSlot) :
    (w.deletePeerConnection i).aside = w.aside := rfl

theorem aside_hardDeletePeerConnection (w : World) (i : ConnectionSlot) :
    (w.hardDeletePeerConnection i).aside = w.aside := by
  rw [hardDeletePeerConnection, aside_deletePeerConnection, aside_singleResolved]
  rfl

theorem aside_handlePeerFailure (w : World) (i : ConnectionSlot) :
    (w.handlePeerFailure i).aside = w.aside := by
  unfold handlePeerFailure
  simp only
  split
  · rw [aside_deletePeerConnection, aside_singleResolved]
    rfl
  · exact aside_singleResolved _ _

theorem aside_handlePeerConnectionAndDispatch (w : World) (i : ConnectionSlot) :
    (w.handlePeerConnectionAndDispatch i).aside = w.aside := by
  unfold handlePeerConnectionAndDispatch
  exact aside_singleResolved _ _

theorem aside_sendMessages (w : World) (i : ConnectionSlot) (call : SendReturn) :
    (w.sendMessages i call).1.aside = w.aside := by
  cases call <;> rfl

theorem aside_recvMessages (w : World) (i : ConnectionSlot) (call : RecvReturn) :
    (w.recvMessages i call).1.aside = w.aside := by
  cases call with
  | failed errno => rfl
  | delivers bytes =>
      unfold recvMessages
      simp only
      split <;> rfl

theorem aside_handshakeWrite (w : World) (i : ConnectionSlot) (calls : SocketCalls) :
    (w.handshakeWrite i calls).aside = w.aside := by
  have hsend := aside_sendMessages w i calls.send
  unfold handshakeWrite
  generalize w.sendMessages i calls.send = sent at hsend ⊢
  obtain ⟨w₁, ok, exhausted⟩ := sent
  rw [← hsend]
  cases ok with
  | false => exact aside_handlePeerFailure w₁ i
  | true =>
      cases exhausted with
      | false => rfl
      | true =>
          simp only
          split
          · rfl
          · exact aside_handlePeerConnectionAndDispatch w₁ i
          · rfl

theorem aside_sendEncoded (infoHash : Vector Byte 20) (w : World) (i : ConnectionSlot)
    (call : SendReturn) :
    ((w.encodeHandshake infoHash i).sendMessages i call).1.aside = w.aside :=
  aside_sendMessages _ i call

theorem aside_handshakeRead (w : World) (i : ConnectionSlot) (calls : SocketCalls) :
    (w.handshakeRead infoHash i calls).aside = w.aside := by
  have hrecv := aside_recvMessages w i calls.recv
  unfold handshakeRead
  generalize w.recvMessages i calls.recv = received at hrecv ⊢
  obtain ⟨w₁, ok⟩ := received
  rw [← hrecv]
  cases ok with
  | false => exact aside_handlePeerFailure w₁ i
  | true =>
      simp only
      split
      · rfl
      · split
        · exact aside_hardDeletePeerConnection _ i
        · split
          · exact aside_handlePeerConnectionAndDispatch _ i
          · rfl
          · rename_i decoded _ _ _
            split
            · rename_i w₂ _ hsent
              rw [aside_handlePeerFailure]
              exact (congrArg (fun sent => sent.1.aside) hsent).symm.trans (aside_sendEncoded _ _ i _)
            · rename_i w₂ hsent
              exact (congrArg (fun sent => sent.1.aside) hsent).symm.trans (aside_sendEncoded _ _ i _)
            · rename_i w₂ hsent
              rw [aside_handlePeerConnectionAndDispatch]
              exact (congrArg (fun sent => sent.1.aside) hsent).symm.trans (aside_sendEncoded _ _ i _)

theorem aside_peerTransportLevelConnected (w : World) (i : ConnectionSlot) (call : SockoptReturn) :
    (w.peerTransportLevelConnected i call).1.aside = w.aside := by
  cases call with
  | failed => rfl
  | error error =>
      unfold peerTransportLevelConnected
      simp only
      split <;> rfl

theorem aside_handlePeerTransportLevelInitiations (w : World) (i : ConnectionSlot) (event : IoEvent)
    (calls : SocketCalls) :
    (w.handlePeerTransportLevelInitiations infoHash i event calls).aside = w.aside := by
  have hconnected := aside_peerTransportLevelConnected w i calls.getsockopt
  unfold handlePeerTransportLevelInitiations
  cases event with
  | read => rfl
  | write =>
      simp only
      generalize w.peerTransportLevelConnected i calls.getsockopt = connected at hconnected ⊢
      obtain ⟨w₁, ok⟩ := connected
      rw [← hconnected]
      cases ok with
      | false => exact aside_handlePeerFailure w₁ i
      | true =>
          have hsend := aside_sendEncoded infoHash
            (w₁.modifyPeer i fun peer => { peer with state := .handshake }) i calls.send
          simp only
          split
          · rename_i w₂ _ hsent
            rw [aside_handlePeerFailure]
            exact (congrArg (fun sent => sent.1.aside) hsent).symm.trans hsend
          · rename_i w₂ hsent
            exact (congrArg (fun sent => sent.1.aside) hsent).symm.trans hsend
          · rename_i w₂ hsent
            exact (congrArg (fun sent => sent.1.aside) hsent).symm.trans hsend

/-- `peer_socket_callback` returns to the loop that called it. -/
theorem aside_peerSocketCallback (w : World) (i : ConnectionSlot) (revents : Revents)
    (calls : SocketCalls) : (w.peerSocketCallback infoHash i revents calls).aside = w.aside := by
  unfold peerSocketCallback
  simp only
  split
  · exact aside_hardDeletePeerConnection _ i
  · cases revents with
    | error => exact aside_handlePeerFailure _ i
    | io event =>
        simp only
        split
        · exact aside_handlePeerTransportLevelInitiations _ i event calls
        · exact aside_handlePeerTransportLevelInitiations _ i event calls
        · exact aside_handlePeerTransportLevelInitiations _ i event calls
        · cases event with
          | write => exact aside_handshakeWrite _ i calls
          | read => exact aside_handshakeRead _ i calls
        · exact aside_hardDeletePeerConnection _ i
        · exact aside_hardDeletePeerConnection _ i

theorem aside_peerTimerCallback (w : World) (i : ConnectionSlot) :
    (w.peerTimerCallback i).aside = w.aside := by
  rw [peerTimerCallback_eq]
  split
  · rfl
  · exact aside_handlePeerFailure (w.timedOut i) i

theorem control_peerSocketCallback (w : World) (i : ConnectionSlot) (revents : Revents)
    (calls : SocketCalls) : (w.peerSocketCallback infoHash i revents calls).control = w.control :=
  congrArg Prod.fst (aside_peerSocketCallback w i revents calls)

theorem control_peerTimerCallback (w : World) (i : ConnectionSlot) :
    (w.peerTimerCallback i).control = w.control :=
  congrArg Prod.fst (aside_peerTimerCallback w i)

end World

end TorrentEngine
