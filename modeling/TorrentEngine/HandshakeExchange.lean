import TorrentEngine.HandshakeResume

/-! A handshake from one manager to another. The sender encodes it into its ring and sends the ring in
parts; the receiver takes the stream in parts into its own ring and decodes. Both rings may start at any
offset, so the encoder and the decoder see the handshake cut into two iovecs anywhere. -/

open Transition CyclicCells

namespace TorrentEngine.Handshake

/-! ### Rings that are full -/

section Rings

variable {buffer : IoRingBuffer 68}

theorem write_eq_read (hwf : buffer.WellFormed) (hfull : buffer.readable = length) :
    buffer.write = buffer.read := by
  rw [hwf.write_eq, hfull, length, Nat.add_mod_right, Nat.mod_eq_of_lt hwf.read_lt]

theorem empty_of_full (hfull : buffer.readable = length) : buffer.empty = false := by
  rw [IoRingBuffer.empty, hfull]
  rfl

theorem prepareRead_origin (hfull : buffer.readable = length) (hzero : buffer.read = 0) :
    buffer.prepareRead = ⟨1, ⟨0, 68⟩, .null⟩ := by
  have hisFull : buffer.full = true := beq_iff_eq.mpr hfull
  rw [IoRingBuffer.prepareRead, empty_of_full hfull, if_neg Bool.false_ne_true, hisFull, hzero,
    if_pos (Or.inr ⟨rfl, rfl⟩), hfull]
  rfl

/-- The bytes of a full ring are cut in two, unless it starts at the first cell. -/
theorem prepareRead_cut (hwf : buffer.WellFormed) (hfull : buffer.readable = length)
    (hne : buffer.read ≠ 0) :
    buffer.prepareRead = ⟨2, ⟨buffer.read, 68 - buffer.read⟩, ⟨0, buffer.read⟩⟩ := by
  have hwrite := write_eq_read hwf hfull
  have hone : ¬ (buffer.read < buffer.write ∨ (buffer.full = true ∧ buffer.read = 0)) := by
    rw [hwrite]
    omega
  rw [IoRingBuffer.prepareRead, empty_of_full hfull, if_neg Bool.false_ne_true, if_neg hone, hwrite]

end Rings

/-! ### Decoding at any offset -/

section Decode

variable (storage : Nat → Byte) (infoHash : Vector Byte 20)

/-- The bytes of the second iovec that have not been stolen. -/
def secondView (s : DecodeState) : List Byte := s.second.cells.map storage

theorem wraparoundSteal_spec (second : Iovec) {size : Nat} (hsize : size ≤ second.len)
    (hlen : second.len < 2 ^ 64) :
    (wraparoundSteal storage second size).1 = (second.cells.map storage).take size ∧
      (wraparoundSteal storage second size).2.cells.map storage =
        (second.cells.map storage).drop size := by
  obtain ⟨rest, hrest⟩ := Nat.exists_eq_add_of_le hsize
  have hsub : SizeT.sub second.len size = rest := by
    rw [SizeT.sub_of_le hsize hlen, hrest, Nat.add_sub_cancel_left]
  have hcells : second.cells = List.range' second.base size ++ List.range' (second.base + size) rest := by
    rw [Iovec.cells, hrest, ← List.range'_append_1]
  have hlength : ((List.range' second.base size).map storage).length = size := by
    rw [List.length_map, List.length_range']
  rw [hcells, List.map_append, List.take_left' hlength, List.drop_left' hlength, wraparoundSteal]
  dsimp only [Iovec.cells]
  rw [hsub]
  exact ⟨rfl, rfl⟩

/-- What is reported and kept once the reserved bytes are passed: the flag and the peer id, by the rest
of the handshake. -/
def hashOutcome (peerId : Option (Vector Byte 20)) (rest : List Byte) :
    Bool × Option (Vector Byte 20) :=
  if infoHash.toList = rest.take 20 then
    (true, some (PeerContact.copyInto (peerId.getD (.replicate 20 0)) ((rest.drop 20).take 20)))
  else (false, peerId)

/-- The flag and the peer id that the loop ends with, when a second turn follows one that goes on. -/
def outcome : LoopTurn → Bool × Option (Vector Byte 20)
  | .stop s => (s.valid, s.peerId)
  | .next s =>
      match decodeTurn storage infoHash s (secondView storage s) with
      | .stop s => (s.valid, s.peerId)
      | .next s => (s.valid, s.peerId)

variable {storage infoHash} {s : DecodeState} {ioView : List Byte}

/-- The second iovec lies within the storage. -/
def Short (s : DecodeState) : Prop := s.second.len < 2 ^ 64

theorem length_secondView (s : DecodeState) : (secondView storage s).length = s.second.len := by
  rw [secondView, List.length_map, Iovec.cells, List.length_range']

/-! #### Parts that the view shows as a whole -/

theorem decodePeerId_whole (hview : 20 ≤ ioView.length) :
    outcome storage infoHash (decodePeerId storage s ioView) =
      (s.valid, some (PeerContact.copyInto (s.peerId.getD (.replicate 20 0)) (ioView.take 20))) := by
  rw [decodePeerId]
  dsimp only
  rw [if_neg (Nat.not_lt.mpr hview), outcome]

theorem decodeInfoHash_whole (hview : 40 ≤ ioView.length) :
    ∃ s', decodeInfoHash storage infoHash s ioView = .stop s' ∧
      (s'.valid, s'.peerId) = hashOutcome infoHash s.peerId ioView := by
  have hlast : ¬ (ioView.drop 20).length < 20 := by
    rw [List.length_drop]
    omega
  rw [decodeInfoHash, if_neg (by omega), hashOutcome]
  by_cases hhash : infoHash.toList = ioView.take 20
  · rw [if_pos hhash, beq_iff_eq.mpr hhash]
    dsimp only
    rw [if_pos rfl, decodePeerId]
    dsimp only
    rw [if_neg hlast]
    exact ⟨_, rfl, rfl⟩
  · rw [if_neg hhash, beq_eq_false_iff_ne.mpr hhash]
    dsimp only
    rw [if_neg Bool.false_ne_true]
    exact ⟨_, rfl, rfl⟩

theorem decodeReserved_whole (hview : 48 ≤ ioView.length) :
    ∃ s', decodeReserved storage infoHash s ioView = .stop s' ∧
      (s'.valid, s'.peerId) = hashOutcome infoHash s.peerId (ioView.drop 8) := by
  rw [decodeReserved, if_neg (by omega)]
  exact decodeInfoHash_whole (by rw [List.length_drop]; omega)

/-! #### Parts that the view may cut -/

/-- A cut part: what is stolen completes the view, and the second iovec shows what follows. -/
theorem steal_cut {size : Nat} (hcut : ioView.length < size) (hshort : Short s)
    (hlength : size ≤ (ioView ++ secondView storage s).length) :
    ioView ++ (wraparoundSteal storage s.second (size - ioView.length)).1 =
        (ioView ++ secondView storage s).take size ∧
      (wraparoundSteal storage s.second (size - ioView.length)).2.cells.map storage =
        (ioView ++ secondView storage s).drop size := by
  rw [List.length_append, length_secondView] at hlength
  have hsize : size - ioView.length ≤ s.second.len := by omega
  obtain ⟨hstolen, hrest⟩ := wraparoundSteal_spec storage s.second hsize hshort
  have htake : (ioView ++ secondView storage s).take size =
      ioView ++ (secondView storage s).take (size - ioView.length) := by
    rw [List.take_append, List.take_of_length_le hcut.le]
  have hdrop : (ioView ++ secondView storage s).drop size =
      (secondView storage s).drop (size - ioView.length) := by
    rw [List.drop_append, List.drop_of_length_le hcut.le, List.nil_append]
  rw [hstolen, hrest, htake, hdrop]
  exact ⟨rfl, rfl⟩

theorem decodePeerId_cut (hshort : Short s) (hlength : 20 ≤ (ioView ++ secondView storage s).length) :
    outcome storage infoHash (decodePeerId storage s ioView) =
      (s.valid, some (PeerContact.copyInto (s.peerId.getD (.replicate 20 0))
        ((ioView ++ secondView storage s).take 20))) := by
  by_cases hcut : ioView.length < 20
  · rw [decodePeerId]
    dsimp only
    rw [if_pos hcut, ← (steal_cut hcut hshort hlength).1, outcome]
  · rw [decodePeerId_whole (Nat.le_of_not_lt hcut), List.take_append_of_le_length (by omega)]

theorem decodeInfoHash_cut (hshort : Short s)
    (hlength : 40 ≤ (ioView ++ secondView storage s).length) :
    outcome storage infoHash (decodeInfoHash storage infoHash s ioView) =
      hashOutcome infoHash s.peerId (ioView ++ secondView storage s) := by
  by_cases hcut : ioView.length < 20
  · obtain ⟨hstolen, hrest⟩ := steal_cut hcut hshort (le_trans (by decide) hlength)
    have hequal : (infoHash.toList.take ioView.length == ioView &&
        infoHash.toList.drop ioView.length ==
          (wraparoundSteal storage s.second (20 - ioView.length)).1) =
        decide (infoHash.toList = (ioView ++ secondView storage s).take 20) := by
      rw [← hstolen, Bool.eq_iff_iff, Bool.and_eq_true, beq_iff_eq, beq_iff_eq, decide_eq_true_eq]
      constructor
      · rintro ⟨hfirst, hsecond⟩
        have hjoined := List.take_append_drop ioView.length infoHash.toList
        rw [hfirst, hsecond] at hjoined
        exact hjoined.symm
      · intro h
        rw [h]
        exact ⟨List.take_left' rfl, List.drop_left' rfl⟩
    rw [decodeInfoHash, if_pos hcut, hashOutcome]
    dsimp only
    rw [hequal]
    by_cases hhash : infoHash.toList = (ioView ++ secondView storage s).take 20
    · rw [decide_eq_true hhash, if_pos rfl, if_pos hhash, outcome]
      dsimp only [decodeTurn]
      rw [secondView, hrest, decodePeerId]
      dsimp only
      rw [if_neg (by rw [List.length_drop]; omega)]
    · rw [decide_eq_false hhash, if_neg Bool.false_ne_true, if_neg hhash, outcome]
  · rw [decodeInfoHash, if_neg hcut, hashOutcome, List.take_append_of_le_length (by omega)]
    by_cases hhash : infoHash.toList = ioView.take 20
    · rw [if_pos hhash, beq_iff_eq.mpr hhash]
      dsimp only
      rw [if_pos rfl, List.drop_append_of_le_length (by omega)]
      refine decodePeerId_cut hshort ?_
      rw [List.length_append, List.length_drop, length_secondView]
      rw [List.length_append, length_secondView] at hlength
      dsimp only
      omega
    · rw [if_neg hhash, beq_eq_false_iff_ne.mpr hhash]
      dsimp only
      rw [if_neg Bool.false_ne_true, outcome]

theorem decodeReserved_cut (hshort : Short s)
    (hlength : 48 ≤ (ioView ++ secondView storage s).length) :
    outcome storage infoHash (decodeReserved storage infoHash s ioView) =
      hashOutcome infoHash s.peerId ((ioView ++ secondView storage s).drop 8) := by
  by_cases hcut : ioView.length < 8
  · obtain ⟨-, hrest⟩ := steal_cut hcut hshort (le_trans (by decide) hlength)
    rw [decodeReserved, if_pos hcut, outcome]
    dsimp only [decodeTurn]
    rw [secondView, hrest]
    obtain ⟨s', hstop, houtcome⟩ := @decodeInfoHash_whole storage infoHash
      ⟨.infoHash, true, (wraparoundSteal storage s.second (8 - ioView.length)).2, s.peerId⟩
      ((ioView ++ secondView storage s).drop 8) (by rw [List.length_drop]; omega)
    rw [hstop]
    exact houtcome
  · rw [decodeReserved, if_neg hcut, List.drop_append_of_le_length (by omega)]
    refine decodeInfoHash_cut hshort ?_
    rw [List.length_append, List.length_drop, length_secondView]
    rw [List.length_append, length_secondView] at hlength
    dsimp only
    omega

theorem decodePstr_cut (hshort : Short s)
    (hlength : 67 ≤ (ioView ++ secondView storage s).length) :
    outcome storage infoHash (decodePstr storage infoHash s ioView) =
      hashOutcome infoHash s.peerId ((ioView ++ secondView storage s).drop 27) := by
  by_cases hcut : ioView.length < 19
  · obtain ⟨-, hrest⟩ := steal_cut hcut hshort (le_trans (by decide) hlength)
    rw [decodePstr, if_pos hcut, outcome]
    dsimp only [decodeTurn]
    rw [secondView, hrest]
    obtain ⟨s', hstop, houtcome⟩ := @decodeReserved_whole storage infoHash
      ⟨.reserved, true, (wraparoundSteal storage s.second (19 - ioView.length)).2, s.peerId⟩
      ((ioView ++ secondView storage s).drop 19) (by rw [List.length_drop]; omega)
    rw [hstop, ← show 19 + 8 = 27 from rfl, ← List.drop_drop]
    exact houtcome
  · have hreserved := @decodeReserved_cut storage infoHash { s with valid := true, range := .reserved }
      (ioView.drop 19) hshort (by
        rw [List.length_append, List.length_drop, length_secondView]
        rw [List.length_append, length_secondView] at hlength
        dsimp only
        omega)
    rw [decodePstr, if_neg hcut, ← show 19 + 8 = 27 from rfl, ← List.drop_drop,
      List.drop_append_of_le_length (by omega)]
    exact hreserved

/-- The flag and the peer id by the bytes of the whole handshake. -/
def decodeOutcome (infoHash : Vector Byte 20) (peerId : Option (Vector Byte 20)) (view : List Byte) :
    Bool × Option (Vector Byte 20) :=
  if view.head? = some 0x13 then hashOutcome infoHash peerId (view.drop 28) else (false, peerId)

theorem decodePstrlen_cut {byte : Byte} (hshort : Short s)
    (hlength : ((byte :: ioView) ++ secondView storage s).length = length) :
    outcome storage infoHash (decodePstrlen storage infoHash s (byte :: ioView)) =
      decodeOutcome infoHash s.peerId ((byte :: ioView) ++ secondView storage s) := by
  rw [decodePstrlen, decodeOutcome, List.cons_append, List.head?_cons]
  dsimp only
  by_cases hbyte : byte = 0x13
  · rw [beq_iff_eq.mpr hbyte, if_pos rfl, if_pos (congrArg some hbyte)]
    refine decodePstr_cut hshort ?_
    rw [List.cons_append, List.length_cons, length] at hlength
    exact (Nat.succ_injective hlength).ge
  · rw [beq_eq_false_iff_ne.mpr hbyte, if_neg Bool.false_ne_true,
      if_neg (fun h => hbyte (Option.some.inj h)), outcome]

/-- A loop over two iovecs ends as its first turn says. -/
theorem decodeLoop_two (first : Iovec) (s : DecodeState) :
    ((decodeLoop storage infoHash first (List.range 2) s).valid,
        (decodeLoop storage infoHash first (List.range 2) s).peerId) =
      outcome storage infoHash (decodeTurn storage infoHash s (first.cells.map storage)) := by
  have hrange : List.range 2 = [0, 1] := rfl
  rw [hrange, decodeLoop, if_pos rfl]
  cases decodeTurn storage infoHash s (first.cells.map storage) with
  | stop s' => rfl
  | next s' =>
      dsimp only
      rw [decodeLoop, if_neg (by decide), outcome, secondView]
      cases decodeTurn storage infoHash s' (s'.second.cells.map storage) with
      | stop s'' => rfl
      | next s'' => rfl

/-- The first turn, which starts at the length of the protocol string. -/
theorem decodeTurn_cut {view : List Byte} (hrange : s.range = .pstrlen) (hne : view ≠ [])
    (hshort : Short s) (hlength : (view ++ secondView storage s).length = length) :
    outcome storage infoHash (decodeTurn storage infoHash s view) =
      decodeOutcome infoHash s.peerId (view ++ secondView storage s) := by
  obtain ⟨byte, ioView, rfl⟩ := List.exists_cons_of_ne_nil hne
  rw [decodeTurn, hrange]
  exact decodePstrlen_cut hshort hlength

end Decode

/-- The loop over the iovecs of a full ring that starts at its first cell. -/
theorem decodeLoop_origin {buffer : IoRingBuffer 68} (hwf : buffer.WellFormed)
    (hfull : buffer.readable = length) (hzero : buffer.read = 0) (infoHash : Vector Byte 20)
    (peerId : Option (Vector Byte 20)) :
    ∀ st, st = decodeLoop buffer.buffer infoHash buffer.prepareRead.first
      (List.range buffer.prepareRead.preparedIovecs)
        ⟨.pstrlen, false, buffer.prepareRead.second, peerId⟩ →
      (st.valid, st.peerId) = decodeOutcome infoHash peerId buffer.contents := by
  rintro st rfl
  have hlength : buffer.contents.length = length := (IoRingBuffer.length_contents buffer).trans hfull
  have hprepare := prepareRead_origin hfull hzero
  have hview : (Iovec.cells ⟨0, 68⟩).map buffer.buffer = buffer.contents := by
    rw [← hwf.gather_prepareRead, IoRingBuffer.gather, hprepare]
    rfl
  have hcut := @decodeTurn_cut buffer.buffer infoHash ⟨.pstrlen, false, .null, peerId⟩
    buffer.contents rfl (List.ne_nil_of_length_pos (by rw [hlength]; decide)) (Nat.two_pow_pos 64) (by
      rw [List.length_append, length_secondView, hlength]
      rfl)
  rw [decodeTurn_linear buffer.buffer infoHash _ hlength rfl] at hcut
  rw [hprepare, List.range_succ, List.range_zero, List.nil_append, decodeLoop, if_pos rfl, hview,
    decodeTurn_linear _ _ _ hlength rfl]
  refine hcut.trans ?_
  rw [show secondView buffer.buffer ⟨.pstrlen, false, .null, peerId⟩ = [] from rfl, List.append_nil]

/-- The loop over the iovecs of a full ring that starts anywhere else. -/
theorem decodeLoop_cut {buffer : IoRingBuffer 68} (hwf : buffer.WellFormed)
    (hfull : buffer.readable = length) (hne : buffer.read ≠ 0) (infoHash : Vector Byte 20)
    (peerId : Option (Vector Byte 20)) :
    ∀ st, st = decodeLoop buffer.buffer infoHash buffer.prepareRead.first
      (List.range buffer.prepareRead.preparedIovecs)
        ⟨.pstrlen, false, buffer.prepareRead.second, peerId⟩ →
      (st.valid, st.peerId) = decodeOutcome infoHash peerId buffer.contents := by
  rintro st rfl
  have hlength : buffer.contents.length = length := (IoRingBuffer.length_contents buffer).trans hfull
  have hread := hwf.read_lt
  have hgather := hwf.gather_prepareRead
  have hprepare := prepareRead_cut hwf hfull hne
  generalize buffer.read = r at hread hne hprepare
  have hview : (Iovec.cells ⟨r, 68 - r⟩).map buffer.buffer ++
      (Iovec.cells ⟨0, r⟩).map buffer.buffer = buffer.contents := by
    rw [← hgather, IoRingBuffer.gather, hprepare, ← List.map_append]
    simp [Prepare.cells, Prepare.iovecs]
  have hcut := @decodeTurn_cut buffer.buffer infoHash ⟨.pstrlen, false, ⟨0, r⟩, peerId⟩
    ((Iovec.cells ⟨r, 68 - r⟩).map buffer.buffer) rfl
    (List.ne_nil_of_length_pos (by
      rw [List.length_map, Iovec.cells, List.length_range']
      exact Nat.sub_pos_of_lt hread))
    (by rw [Short]; dsimp only; omega) (by rw [secondView, hview, hlength])
  rw [secondView, hview] at hcut
  rw [hprepare, decodeLoop_two, hcut]

/-- **A full ring is decoded and emptied, wherever it starts.** -/
theorem decode_full {buffer : IoRingBuffer 68} (hwf : buffer.WellFormed)
    (hfull : buffer.readable = length) (infoHash : Vector Byte 20) (peerId : Option (Vector Byte 20)) :
    decode buffer infoHash peerId =
      (⟨true, (decodeOutcome infoHash peerId buffer.contents).1⟩, buffer.commitRead length,
        (decodeOutcome infoHash peerId buffer.contents).2) := by
  have henough : ¬ buffer.prepareRead.preparedBytes < length := by
    rw [hwf.preparedBytes_prepareRead, hfull]
    exact lt_irrefl _
  rw [decode]
  dsimp only
  rw [if_neg henough]
  by_cases hzero : buffer.read = 0
  · rw [← decodeLoop_origin hwf hfull hzero infoHash peerId _ rfl]
  · rw [← decodeLoop_cut hwf hfull hzero infoHash peerId _ rfl]

/-! ### What a handshake decodes to -/

theorem copyInto_full {n : Nat} (target : Vector Byte n) {bytes : List Byte} (hlength : bytes.length = n) :
    (PeerContact.copyInto target bytes).toList = bytes := by
  refine List.ext_getElem (by rw [Vector.length_toList, hlength]) fun i hi hi' => ?_
  simp only [PeerContact.copyInto, Vector.getElem_toList, Vector.getElem_ofFn]
  rw [List.getD_eq_getElem?_getD, List.getElem?_eq_getElem hi', Option.getD_some]

theorem decodeOutcome_handshake (h₁ h₂ : Vector Byte 20) (peerId : Option (Vector Byte 20)) :
    (decodeOutcome h₂ peerId (computeHandshake h₁)).1 = decide (h₁ = h₂) ∧
      (h₁ = h₂ → ∃ id, (decodeOutcome h₂ peerId (computeHandshake h₁)).2 = some id ∧
        id.toList = clientId) := by
  have hhead : (computeHandshake h₁).head? = some 0x13 := rfl
  have hrest : (computeHandshake h₁).drop 28 = h₁.toList ++ clientId := by
    rw [computeHandshake, List.append_assoc ([19] ++ protocolString ++ reservedBytes)]
    exact List.drop_left' rfl
  have hfield : (h₁.toList ++ clientId).take 20 = h₁.toList := List.take_left' h₁.length_toList
  have hid : ((h₁.toList ++ clientId).drop 20).take 20 = clientId := by
    rw [List.drop_left' h₁.length_toList]
    rfl
  rw [decodeOutcome, if_pos hhead, hrest, hashOutcome, hfield, hid]
  by_cases heq : h₁ = h₂
  · subst heq
    rw [if_pos rfl, decide_eq_true rfl]
    exact ⟨rfl, fun _ => ⟨_, rfl, copyInto_full _ rfl⟩⟩
  · rw [if_neg (fun h => heq (Vector.toList_inj.mp h.symm)), decide_eq_false heq]
    exact ⟨rfl, fun h => absurd h heq⟩

/-! ### The exchange -/

/-- The two ends of a connection, as far as the handshake from one to the other goes. -/
structure Exchange where
  sendBuffer : IoRingBuffer 68
  outgoingFrameCursor : Nat
  /-- What was sent and has not been received. -/
  stream : List Byte
  recvBuffer : IoRingBuffer 68
  peerId : Option (Vector Byte 20)
  /-- What `decode` has reported so far. -/
  reports : List DecodeResult
  /-- What the receiver has taken from the stream. -/
  taken : List Byte

inductive ExchangeEvent where
  | encode
  /-- `sendmsg` accepts at most so many bytes. -/
  | send (accepted : Nat)
  /-- The sender goes on with other messages. -/
  | later (bytes : List Byte)
  /-- `recvmsg` delivers at most so many bytes. -/
  | recv (delivered : Nat)
  | decode

namespace Exchange

/-- The receiver takes bytes until the handshake is complete; the peer is then dispatched or deleted. -/
def Receiving (x : Exchange) : Prop := ∀ report ∈ x.reports, report.complete = false

instance (x : Exchange) : Decidable x.Receiving := by
  unfold Receiving
  infer_instance

section Step

variable (h₁ h₂ : Vector Byte 20)

/-- A step of the exchange between managers with these info hashes. -/
def step (x : Exchange) : ExchangeEvent → Option Exchange
  | .encode =>
      let encoded := Handshake.encode (computeHandshake h₁) x.sendBuffer x.outgoingFrameCursor
      some { x with sendBuffer := encoded.buffer, outgoingFrameCursor := encoded.cursor }
  | .send accepted =>
      let sent := (x.sendBuffer.gather x.sendBuffer.prepareRead).take accepted
      some { x with sendBuffer := x.sendBuffer.commitRead sent.length, stream := x.stream ++ sent }
  | .later bytes =>
      if x.outgoingFrameCursor = length ∧ x.sendBuffer.empty = true then
        some { x with stream := x.stream ++ bytes }
      else none
  | .recv delivered =>
      if x.Receiving then
        let given := (x.stream.take delivered).take x.recvBuffer.prepareWrite.preparedBytes
        some { x with
          recvBuffer := x.recvBuffer.produce given
          stream := x.stream.drop given.length
          taken := x.taken ++ given }
      else none
  | .decode =>
      match Handshake.decode x.recvBuffer h₂ x.peerId with
      | (report, recvBuffer, peerId) =>
          some { x with recvBuffer, peerId, reports := x.reports ++ [report] }

end Step

/-- Both rings are empty, at any offset. -/
structure Fresh (x : Exchange) : Prop where
  sendBuffer : x.sendBuffer.WellFormed
  sendBuffer_empty : x.sendBuffer.readable = 0
  recvBuffer : x.recvBuffer.WellFormed
  recvBuffer_empty : x.recvBuffer.readable = 0
  cursor : x.outgoingFrameCursor = 0
  stream : x.stream = []
  reports : x.reports = []
  taken : x.taken = []

end Exchange

def exchangeMachine (h₁ h₂ : Vector Byte 20) : Machine Exchange ExchangeEvent where
  Init := Exchange.Fresh
  Step x e x' := x.step h₁ h₂ e = some x'

namespace Exchange

variable {h₁ h₂ : Vector Byte 20} {x x' : Exchange} {e : ExchangeEvent}

/-- Where the bytes of the handshake are: none encoded yet; or taken, in the stream and in the ring of the
sender, in this order; or all out of the ring, with other bytes behind them. -/
def Flows (h₁ : Vector Byte 20) (x : Exchange) : Prop :=
  (x.outgoingFrameCursor = 0 ∧ x.sendBuffer.readable = 0 ∧ x.taken ++ x.stream = []) ∨
    (x.outgoingFrameCursor = length ∧
      x.taken ++ x.stream ++ x.sendBuffer.contents = computeHandshake h₁) ∨
    (x.outgoingFrameCursor = length ∧ x.sendBuffer.readable = 0 ∧
      computeHandshake h₁ <+: x.taken ++ x.stream)

/-- The report on a whole handshake. -/
def verdict (h₁ h₂ : Vector Byte 20) : DecodeResult := ⟨true, decide (h₁ = h₂)⟩

/-- The receiver before and after its one complete report. -/
def Received (h₁ h₂ : Vector Byte 20) (x : Exchange) : Prop :=
  (x.Receiving ∧ x.recvBuffer.contents = x.taken) ∨
    (x.taken = computeHandshake h₁ ∧ x.recvBuffer.readable = 0 ∧
      x.reports.filter DecodeResult.complete = [verdict h₁ h₂] ∧
        (h₁ = h₂ → ∃ id, x.peerId = some id ∧ id.toList = clientId))

structure Coherent (h₁ h₂ : Vector Byte 20) (x : Exchange) : Prop where
  sendBuffer : x.sendBuffer.WellFormed
  recvBuffer : x.recvBuffer.WellFormed
  flows : Flows h₁ x
  received : Received h₁ h₂ x

theorem Fresh.coherent (h : x.Fresh) : Coherent h₁ h₂ x where
  sendBuffer := h.sendBuffer
  recvBuffer := h.recvBuffer
  flows := Or.inl ⟨h.cursor, h.sendBuffer_empty, by rw [h.taken, h.stream]; rfl⟩
  received := by
    refine Or.inl ⟨?_, ?_⟩
    · rw [Receiving, h.reports]
      exact nofun
    · rw [h.taken, ← List.length_eq_zero_iff, IoRingBuffer.length_contents, h.recvBuffer_empty]

theorem Coherent.taken_le (hx : Coherent h₁ h₂ x) : x.taken.length ≤ length := by
  rcases hx.received with ⟨-, hcontents⟩ | ⟨htaken, -⟩
  · rw [← hcontents, IoRingBuffer.length_contents]
    exact hx.recvBuffer.readable_le
  · rw [htaken, length_computeHandshake]

theorem filter_of_receiving (hx : x.Receiving) : x.reports.filter DecodeResult.complete = [] :=
  List.filter_eq_nil_iff.mpr fun report hreport => by rw [hx report hreport]; decide

/-- A received handshake is the one that was sent. -/
theorem taken_eq (hx : Coherent h₁ h₂ x) (hfull : x.taken.length = length) :
    x.taken = computeHandshake h₁ := by
  have hlength := length_computeHandshake h₁
  rcases hx.flows with ⟨-, -, hnone⟩ | ⟨-, hflow⟩ | ⟨-, -, hflow⟩
  · rw [List.append_eq_nil_iff.mp hnone |>.1] at hfull
    cases hfull
  · rw [List.append_assoc] at hflow
    exact List.append_inj_left (hflow.trans (List.append_nil _).symm) (hfull.trans hlength.symm)
  · obtain ⟨rest, hrest⟩ := hflow
    exact (List.append_inj_left hrest (hlength.trans hfull.symm)).symm

theorem encode_complete (handshake : List Byte) (buffer : IoRingBuffer 68) :
    Handshake.encode handshake buffer length = ⟨buffer, length, true⟩ :=
  if_pos (Nat.le_refl length)

theorem Coherent.encode (hx : Coherent h₁ h₂ x) (h : x.step h₁ h₂ .encode = some x') :
    Coherent h₁ h₂ x' := by
  have hlength := length_computeHandshake h₁
  cases h
  rcases hx.flows with ⟨hcursor, hempty, hnone⟩ | ⟨hcursor, hflow⟩ | ⟨hcursor, hempty, hflow⟩
  · have hfit : (computeHandshake h₁).length ≤ 68 - x.sendBuffer.readable := by
      rw [hlength, hempty]
      rfl
    have hencode := encode_empty hx.sendBuffer hlength hempty
    rw [← hcursor] at hencode
    rw [hencode]
    refine ⟨hx.sendBuffer.produce hfit, hx.recvBuffer, Or.inr (Or.inl ⟨rfl, ?_⟩), hx.received⟩
    dsimp only
    have hcontents : x.sendBuffer.contents = [] := by
      rw [← List.length_eq_zero_iff, IoRingBuffer.length_contents, hempty]
    rw [hnone, hx.sendBuffer.contents_produce hfit, hcontents]
    rfl
  · rw [hcursor, encode_complete]
    exact ⟨hx.sendBuffer, hx.recvBuffer, Or.inr (Or.inl ⟨rfl, hflow⟩), hx.received⟩
  · rw [hcursor, encode_complete]
    exact ⟨hx.sendBuffer, hx.recvBuffer, Or.inr (Or.inr ⟨rfl, hempty, hflow⟩), hx.received⟩

theorem Coherent.send {accepted : Nat} (hx : Coherent h₁ h₂ x)
    (h : x.step h₁ h₂ (.send accepted) = some x') : Coherent h₁ h₂ x' := by
  rw [step, hx.sendBuffer.gather_prepareRead] at h
  cases h
  have hle : (x.sendBuffer.contents.take accepted).length ≤ x.sendBuffer.readable := by
    rw [List.length_take, IoRingBuffer.length_contents]
    exact min_le_right _ _
  have hdrop : x.sendBuffer.contents.take accepted ++
      (x.sendBuffer.commitRead (x.sendBuffer.contents.take accepted).length).contents =
        x.sendBuffer.contents := by
    rw [IoRingBuffer.contents_commitRead _ hle]
    exact List.prefix_iff_eq_append.mp (List.take_prefix _ _)
  refine ⟨hx.sendBuffer.commitRead hle, hx.recvBuffer, ?_, hx.received⟩
  have hsent : x.sendBuffer.readable = 0 → x.sendBuffer.contents.take accepted = [] := by
    intro hempty
    rw [← List.length_eq_zero_iff]
    omega
  rcases hx.flows with ⟨hcursor, hempty, hnone⟩ | ⟨hcursor, hflow⟩ | ⟨hcursor, hempty, hflow⟩
  · rw [hsent hempty]
    exact Or.inl ⟨hcursor, hempty, by rw [List.append_nil]; exact hnone⟩
  · refine Or.inr (Or.inl ⟨hcursor, ?_⟩)
    dsimp only
    rw [List.append_assoc, List.append_assoc, hdrop, ← List.append_assoc]
    exact hflow
  · rw [hsent hempty]
    exact Or.inr (Or.inr ⟨hcursor, hempty, by rw [List.append_nil]; exact hflow⟩)

theorem Coherent.later {bytes : List Byte} (hx : Coherent h₁ h₂ x)
    (h : x.step h₁ h₂ (.later bytes) = some x') : Coherent h₁ h₂ x' := by
  rw [step] at h
  split at h
  · rename_i hsent
    have hempty : x.sendBuffer.readable = 0 := beq_iff_eq.mp hsent.2
    cases h
    refine ⟨hx.sendBuffer, hx.recvBuffer, Or.inr (Or.inr ⟨hsent.1, hempty, ?_⟩),
      hx.received⟩
    dsimp only
    rw [← List.append_assoc]
    rcases hx.flows with ⟨hcursor, -, -⟩ | ⟨-, hflow⟩ | ⟨-, -, hflow⟩
    · rw [hsent.1] at hcursor
      cases hcursor
    · have hcontents : x.sendBuffer.contents = [] := by
        rw [← List.length_eq_zero_iff, IoRingBuffer.length_contents, hempty]
      rw [hcontents, List.append_nil] at hflow
      rw [hflow]
      exact List.prefix_append _ _
    · exact hflow.trans (List.prefix_append _ _)
  · cases h

theorem Coherent.recv {delivered : Nat} (hx : Coherent h₁ h₂ x)
    (h : x.step h₁ h₂ (.recv delivered) = some x') : Coherent h₁ h₂ x' := by
  rw [step] at h
  split at h
  · rename_i hreceiving
    dsimp only at h
    obtain ⟨given, hgiven⟩ : ∃ given, (x.stream.take delivered).take
        x.recvBuffer.prepareWrite.preparedBytes = given := ⟨_, rfl⟩
    rw [hgiven] at h
    cases h
    have hfit : given.length ≤ 68 - x.recvBuffer.readable := by
      rw [← hgiven, List.length_take, hx.recvBuffer.preparedBytes_prepareWrite]
      exact min_le_left _ _
    have hstream : given ++ x.stream.drop given.length = x.stream := by
      rw [← List.prefix_iff_eq_append, ← hgiven]
      exact (List.take_prefix _ _).trans (List.take_prefix _ _)
    have hflow : (x.taken ++ given) ++ x.stream.drop given.length = x.taken ++ x.stream := by
      rw [List.append_assoc, hstream]
    refine ⟨hx.sendBuffer, hx.recvBuffer.produce hfit, ?_, ?_⟩
    · rw [Flows]
      dsimp only
      rw [hflow]
      exact hx.flows
    · rcases hx.received with ⟨-, hcontents⟩ | ⟨-, -, hreports, -⟩
      · refine Or.inl ⟨hreceiving, ?_⟩
        dsimp only
        rw [hx.recvBuffer.contents_produce hfit, hcontents]
      · rw [filter_of_receiving hreceiving] at hreports
        cases hreports
  · cases h

/-- What the next `decode` does: with less than a handshake in the ring nothing but report so, and
otherwise report on the handshake. -/
theorem decode_spec (hx : Coherent h₁ h₂ x) (h : x.step h₁ h₂ .decode = some x') :
    (x.recvBuffer.readable < length ∧ x' = { x with reports := x.reports ++ [⟨false, false⟩] }) ∨
      (x.Receiving ∧ x.taken = computeHandshake h₁ ∧ x.recvBuffer.readable = length ∧ ∃ peerId,
        x' = { x with
          recvBuffer := x.recvBuffer.commitRead length, peerId, reports := x.reports ++ [verdict h₁ h₂] } ∧
        (h₁ = h₂ → ∃ id, peerId = some id ∧ id.toList = clientId)) := by
  rw [step] at h
  by_cases hshort : x.recvBuffer.readable < length
  · rw [decode_incomplete hx.recvBuffer hshort] at h
    cases h
    exact Or.inl ⟨hshort, rfl⟩
  · have hfull : x.recvBuffer.readable = length :=
      le_antisymm hx.recvBuffer.readable_le (Nat.le_of_not_lt hshort)
    rcases hx.received with ⟨hreceiving, hcontents⟩ | ⟨-, hempty, -⟩
    · have htaken : x.taken = computeHandshake h₁ := by
        refine taken_eq hx ?_
        rw [← hcontents, IoRingBuffer.length_contents, hfull]
      obtain ⟨hvalid, hid⟩ := decodeOutcome_handshake h₁ h₂ x.peerId
      rw [decode_full hx.recvBuffer hfull, hcontents.trans htaken, hvalid] at h
      cases h
      exact Or.inr ⟨hreceiving, htaken, hfull, _, rfl, hid⟩
    · rw [hempty] at hfull
      cases hfull

theorem Coherent.decode (hx : Coherent h₁ h₂ x) (h : x.step h₁ h₂ .decode = some x') :
    Coherent h₁ h₂ x' := by
  rcases decode_spec hx h with ⟨-, rfl⟩ | ⟨hreceiving, htaken, hfull, peerId, rfl, hid⟩
  · refine ⟨hx.sendBuffer, hx.recvBuffer, hx.flows, ?_⟩
    rcases hx.received with ⟨hreceiving, hcontents⟩ | ⟨htaken, hempty, hreports, hid⟩
    · refine Or.inl ⟨fun report hreport => ?_, hcontents⟩
      rcases List.mem_append.mp hreport with hold | hnew
      · exact hreceiving report hold
      · rw [List.mem_singleton.mp hnew]
    · refine Or.inr ⟨htaken, hempty, ?_, hid⟩
      rw [List.filter_append, hreports]
      rfl
  · refine ⟨hx.sendBuffer, hx.recvBuffer.commitRead (le_of_eq hfull.symm), hx.flows,
      Or.inr ⟨htaken, ?_, ?_, hid⟩⟩
    · rw [IoRingBuffer.commitRead, if_neg (by decide), hfull]
      exact Nat.sub_self _
    · rw [List.filter_append, filter_of_receiving hreceiving]
      rfl

theorem Coherent.step (hx : Coherent h₁ h₂ x) (h : x.step h₁ h₂ e = some x') : Coherent h₁ h₂ x' := by
  cases e with
  | encode => exact hx.encode h
  | send accepted => exact hx.send h
  | later bytes => exact hx.later h
  | recv delivered => exact hx.recv h
  | decode => exact hx.decode h

theorem coherent (h : (exchangeMachine h₁ h₂).Reachable x) : Coherent h₁ h₂ x :=
  h.invariant (Coherent h₁ h₂) (fun _ hfresh => Fresh.coherent hfresh) fun _ _ _ hx hstep => hx.step hstep

/-- **The handshake arrives whole.** However the stream is cut, the receiver takes no more than the 68
bytes; `decode` reports incomplete and changes nothing until it has all of them, reports complete when it
does, once, with the flag that says whether the info hashes agree, and keeps the client id of a sender
whose handshake is valid. -/
theorem handshake_received (h : (exchangeMachine h₁ h₂).Reachable x) :
    x.taken.length ≤ length ∧
      (x.reports.filter DecodeResult.complete = [] ∨
        x.reports.filter DecodeResult.complete = [verdict h₁ h₂]) ∧
      (verdict h₁ h₂ ∈ x.reports → h₁ = h₂ → ∃ id, x.peerId = some id ∧ id.toList = clientId) ∧
      ∃ report recvBuffer peerId,
        x.step h₁ h₂ .decode =
            some { x with recvBuffer, peerId, reports := x.reports ++ [report] } ∧
          (x.taken.length < length → report = ⟨false, false⟩) ∧
          (x.taken.length = length → x.Receiving → report = verdict h₁ h₂) ∧
          (¬ x.Receiving → report = ⟨false, false⟩) ∧
          (report.complete = false → recvBuffer = x.recvBuffer ∧ peerId = x.peerId) ∧
          (report = verdict h₁ h₂ → h₁ = h₂ → ∃ id, peerId = some id ∧ id.toList = clientId) := by
  have hx := coherent h
  refine ⟨hx.taken_le, ?_, ?_, ?_⟩
  · rcases hx.received with ⟨hreceiving, -⟩ | ⟨-, -, hreports, -⟩
    · exact Or.inl (filter_of_receiving hreceiving)
    · exact Or.inr hreports
  · intro hmem
    rcases hx.received with ⟨hreceiving, -⟩ | ⟨-, -, -, hid⟩
    · cases hreceiving _ hmem
    · exact hid
  · obtain ⟨x', hstep⟩ : ∃ x', x.step h₁ h₂ .decode = some x' := ⟨_, rfl⟩
    rcases decode_spec hx hstep with ⟨hshort, rfl⟩ | ⟨hreceiving, htaken, -, peerId, rfl, hid⟩
    · refine ⟨⟨false, false⟩, x.recvBuffer, x.peerId, hstep, fun _ => rfl, fun hfull hreceiving => ?_,
        fun _ => rfl, fun _ => ⟨rfl, rfl⟩, nofun⟩
      rcases hx.received with ⟨-, hcontents⟩ | ⟨-, -, hreports, -⟩
      · rw [← hcontents, IoRingBuffer.length_contents] at hfull
        omega
      · rw [filter_of_receiving hreceiving] at hreports
        cases hreports
    · refine ⟨verdict h₁ h₂, _, peerId, hstep, fun hless => ?_, fun _ _ => rfl,
        fun hnot => absurd hreceiving hnot, nofun, fun _ => hid⟩
      rw [htaken, length_computeHandshake] at hless
      exact absurd hless (lt_irrefl _)

/-! Rings that start at cells 5 and 60, a handshake sent in two parts, and one taken in two. -/

def offsetRing (offset : Nat) : IoRingBuffer 68 := ⟨offset, offset, 0, fun _ => 0⟩

def offsetExchange : Exchange := ⟨offsetRing 5, 0, [], offsetRing 60, none, [], []⟩

theorem offsetExchange_fresh : offsetExchange.Fresh :=
  ⟨⟨by decide, by decide, rfl⟩, rfl, ⟨by decide, by decide, rfl⟩, rfl, rfl, rfl, rfl, rfl⟩

def exchangeEvents : List ExchangeEvent :=
  [.encode, .send 30, .recv 20, .decode, .send 68, .later [1, 2, 3], .recv 100, .decode]

def exchanged : Exchange :=
  (Machine.replay (fun _ _ => true) (step (.replicate 20 7) (.replicate 20 7)) offsetExchange
    exchangeEvents).getD offsetExchange

theorem exchanged_reachable :
    (exchangeMachine (.replicate 20 7) (.replicate 20 7)).Reachable exchanged :=
  Machine.ReachableBy.replay_getD (fun _ _ _ => trivial) (fun _ _ _ h => h) (.init offsetExchange_fresh) _

theorem handshake_received_exchanged :
    exchanged.reports = [⟨false, false⟩, ⟨true, true⟩] ∧ exchanged.stream = [1, 2, 3] ∧
      exchanged.taken.length ≤ length :=
  ⟨by decide +kernel, by decide +kernel, (handshake_received exchanged_reachable).1⟩

end Exchange

end TorrentEngine.Handshake
