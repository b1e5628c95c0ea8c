import TorrentEngine.HandshakeExchange

/-! What `handshake::decode` makes of 68 bytes, wherever the ring is cut. Each part of the handshake is
taken from the first iovec, from the second, or completed by a steal from the second; the bytes from that
part to the end of the handshake bound what is stolen. -/

open CyclicCells

namespace TorrentEngine.Handshake

/-! ### The turns of the loop -/

/-- The variables after a turn. -/
def LoopTurn.state : LoopTurn → DecodeState
  | .next s => s
  | .stop s => s

/-- The turns that the loop over the iovecs takes, each with the variables it starts with. -/
def decodeTurns (storage : Nat → Byte) (infoHash : Vector Byte 20) (first : Iovec) :
    List Nat → DecodeState → List (DecodeState × LoopTurn)
  | [], _ => []
  | index :: indices, s =>
      let iovec := if index = 0 then first else s.second
      let turn := decodeTurn storage infoHash s (iovec.cells.map storage)
      (s, turn) ::
        match turn with
        | .stop _ => []
        | .next s => decodeTurns storage infoHash first indices s

/-- The turns of a call. -/
def turns (buffer : IoRingBuffer 68) (infoHash : Vector Byte 20) (peerId : Option (Vector Byte 20)) :
    List (DecodeState × LoopTurn) :=
  decodeTurns buffer.buffer infoHash buffer.prepareRead.first
    (List.range buffer.prepareRead.preparedIovecs) ⟨.pstrlen, false, buffer.prepareRead.second, peerId⟩

/-- The loop ends with the variables of its last turn. -/
theorem decodeLoop_eq_getLast (storage : Nat → Byte) (infoHash : Vector Byte 20) (first : Iovec)
    (indices : List Nat) (s : DecodeState) :
    decodeLoop storage infoHash first indices s =
      (((decodeTurns storage infoHash first indices s).map fun turn => turn.2.state).getLast?).getD s := by
  induction indices generalizing s with
  | nil => rfl
  | cons index indices ih =>
      simp only [decodeLoop, decodeTurns]
      cases decodeTurn storage infoHash s
          ((if index = 0 then first else s.second).cells.map storage) with
      | stop s' => rfl
      | next s' =>
          simp only [ih s', List.map_cons, List.getLast?_cons, Option.getD_some]
          rfl

/-- The second iovec before and after a steal of no more than it has. The base moves by the number of
bytes stolen, so that the length says whether the subtraction wrapped. -/
def Stolen (before after : Iovec) : Prop :=
  ∃ size ≤ before.len, after = ⟨before.base + size, before.len - size⟩

theorem Stolen.refl (second : Iovec) : Stolen second second := ⟨0, Nat.zero_le _, rfl⟩

/-- The bytes from a part of the handshake to its end. -/
def DecodeRange.remaining : DecodeRange → Nat
  | .pstrlen => 68
  | .pstr => 67
  | .reserved => 48
  | .infoHash => 40
  | .peerId => 20

section Turns

variable {storage : Nat → Byte} {infoHash : Vector Byte 20} {s : DecodeState} {ioView : List Byte}

/-- A turn that steals no more than there is, and goes on only if the rest of the handshake is in the
second iovec. -/
structure InBounds (s : DecodeState) (turn : LoopTurn) : Prop where
  stolen : Stolen s.second turn.state.second
  enough : ∀ s', turn = .next s' → s'.range.remaining ≤ s'.second.len

theorem InBounds.stop {s' : DecodeState} (h : Stolen s.second s'.second) : InBounds s (.stop s') where
  stolen := h
  enough := fun _ hnext => by cases hnext

theorem InBounds.next {s' : DecodeState} (h : Stolen s.second s'.second)
    (henough : s'.range.remaining ≤ s'.second.len) : InBounds s (.next s') where
  stolen := h
  enough := fun _ hnext => by cases hnext; exact henough

theorem wraparoundSteal_stolen (storage : Nat → Byte) {second : Iovec} (hshort : second.len < 2 ^ 64) {size : Nat}
    (hsize : size ≤ second.len) : Stolen second (wraparoundSteal storage second size).2 := by
  refine ⟨size, hsize, ?_⟩
  rw [wraparoundSteal, SizeT.sub_of_le hsize hshort]

/-- What a cut part leaves of the second iovec. -/
theorem wraparoundSteal_len (storage : Nat → Byte) {second : Iovec} (hshort : second.len < 2 ^ 64) {size : Nat}
    (hsize : size ≤ second.len) :
    (wraparoundSteal storage second size).2.len = second.len - size := by
  rw [wraparoundSteal, SizeT.sub_of_le hsize hshort]

/-- A part that is cut steals what it lacks, and the next turn finds the rest. -/
theorem InBounds.cut {range : DecodeRange} {size : Nat} {valid : Bool} {peerId : Option (Vector Byte 20)}
    (hshort : Short s) (hcut : ioView.length < size)
    (henough : size + range.remaining ≤ ioView.length + s.second.len) :
    InBounds s (.next
      ⟨range, valid, (wraparoundSteal storage s.second (size - ioView.length)).2, peerId⟩) := by
  have hsize : size - ioView.length ≤ s.second.len := by omega
  apply InBounds.next (wraparoundSteal_stolen storage hshort hsize)
  dsimp only
  rw [wraparoundSteal_len storage hshort hsize]
  omega

/-- A part that is whole leaves the second iovec to the parts after it. -/
theorem InBounds.whole {s' : DecodeState} {turn : LoopTurn} (h : InBounds s' turn)
    (hsecond : s'.second = s.second) : InBounds s turn where
  stolen := hsecond ▸ h.stolen
  enough := h.enough

theorem decodePeerId_inBounds (hshort : Short s) (henough : 20 ≤ ioView.length + s.second.len) :
    InBounds s (decodePeerId storage s ioView) := by
  rw [decodePeerId]
  dsimp only
  by_cases hcut : ioView.length < 20
  · rw [if_pos hcut]
    apply InBounds.stop
    exact wraparoundSteal_stolen storage hshort (by omega)
  · rw [if_neg hcut]
    apply InBounds.stop
    exact Stolen.refl _

theorem decodeInfoHash_inBounds (hshort : Short s) (henough : 40 ≤ ioView.length + s.second.len) :
    InBounds s (decodeInfoHash storage infoHash s ioView) := by
  rw [decodeInfoHash]
  dsimp only
  by_cases hcut : ioView.length < 20
  · rw [if_pos hcut]
    split
    · exact InBounds.cut hshort hcut henough
    · apply InBounds.stop
      exact wraparoundSteal_stolen storage hshort (by omega)
  · rw [if_neg hcut]
    split
    · have hrest : 20 ≤ (ioView.drop 20).length + s.second.len := by
        rw [List.length_drop]
        omega
      exact InBounds.whole (decodePeerId_inBounds hshort hrest) rfl
    · exact InBounds.stop (Stolen.refl _)

theorem decodeReserved_inBounds (hshort : Short s) (henough : 48 ≤ ioView.length + s.second.len) :
    InBounds s (decodeReserved storage infoHash s ioView) := by
  rw [decodeReserved]
  dsimp only
  by_cases hcut : ioView.length < 8
  · rw [if_pos hcut]
    exact InBounds.cut hshort hcut henough
  · have hrest : 40 ≤ (ioView.drop 8).length + s.second.len := by
      rw [List.length_drop]
      omega
    rw [if_neg hcut]
    exact InBounds.whole (decodeInfoHash_inBounds hshort hrest) rfl

theorem decodePstr_inBounds (hshort : Short s) (henough : 67 ≤ ioView.length + s.second.len) :
    InBounds s (decodePstr storage infoHash s ioView) := by
  rw [decodePstr]
  dsimp only
  by_cases hcut : ioView.length < 19
  · rw [if_pos hcut]
    exact InBounds.cut hshort hcut henough
  · have hrest : 48 ≤ (ioView.drop 19).length + s.second.len := by
      rw [List.length_drop]
      omega
    rw [if_neg hcut]
    exact InBounds.whole (decodeReserved_inBounds hshort hrest) rfl

theorem decodePstrlen_inBounds (hrange : s.range = .pstrlen) (hshort : Short s)
    (henough : 68 ≤ ioView.length + s.second.len) :
    InBounds s (decodePstrlen storage infoHash s ioView) := by
  cases ioView with
  | nil =>
      rw [decodePstrlen]
      apply InBounds.next (Stolen.refl _)
      rw [hrange]
      simpa [DecodeRange.remaining] using henough
  | cons byte rest =>
      rw [decodePstrlen]
      dsimp only
      split
      · have hrest : 67 ≤ rest.length + s.second.len := by
          rw [List.length_cons] at henough
          omega
        exact InBounds.whole (decodePstr_inBounds hshort hrest) rfl
      · exact InBounds.stop (Stolen.refl _)

/-- Whatever part a turn enters at, the rest of the handshake in the view and the second iovec keeps it
within bounds. -/
theorem decodeTurn_inBounds (hshort : Short s)
    (henough : s.range.remaining ≤ ioView.length + s.second.len) :
    InBounds s (decodeTurn storage infoHash s ioView) := by
  rw [decodeTurn]
  cases hrange : s.range <;> rw [hrange] at henough <;> dsimp only
  · exact decodePstrlen_inBounds hrange hshort henough
  · exact decodePstr_inBounds hshort henough
  · exact decodeReserved_inBounds hshort henough
  · exact decodeInfoHash_inBounds hshort henough
  · exact decodePeerId_inBounds hshort henough

theorem Stolen.short {after : Iovec} (h : Stolen s.second after) (hshort : Short s) :
    after.len < 2 ^ 64 := by
  obtain ⟨size, -, rfl⟩ := h
  exact Nat.lt_of_le_of_lt (Nat.sub_le _ _) hshort

/-- A run of turns, the first of which may see the first iovec. -/
theorem decodeTurns_inBounds (first : Iovec) (indices : List Nat) (hshort : Short s)
    (hfirst : ∀ index ∈ indices.head?, s.range.remaining ≤
      (if index = 0 then first else s.second).len + s.second.len)
    (hlater : ∀ index ∈ indices.tail, index ≠ 0) :
    ∀ turn ∈ decodeTurns storage infoHash first indices s, InBounds turn.1 turn.2 := by
  induction indices generalizing s with
  | nil =>
      intro turn hturn
      cases hturn
  | cons index indices ih =>
      intro turn hturn
      have hview : (((if index = 0 then first else s.second).cells.map storage).length) =
          (if index = 0 then first else s.second).len := by
        rw [List.length_map, Iovec.cells, List.length_range']
      have hbounds : InBounds s (decodeTurn storage infoHash s
          ((if index = 0 then first else s.second).cells.map storage)) := by
        apply decodeTurn_inBounds hshort
        rw [hview]
        exact hfirst index rfl
      rw [decodeTurns] at hturn
      rcases List.mem_cons.mp hturn with rfl | hrest
      · exact hbounds
      · cases hnext : decodeTurn storage infoHash s
            ((if index = 0 then first else s.second).cells.map storage) with
        | stop s' =>
            rw [hnext] at hrest
            cases hrest
        | next s' =>
            rw [hnext] at hrest hbounds
            apply ih (hbounds.stolen.short hshort) _ _ turn hrest
            · intro later hmem
              have hne : later ≠ 0 := hlater later (List.mem_of_mem_head? hmem)
              rw [if_neg hne]
              exact (hbounds.enough s' rfl).trans (Nat.le_add_right _ _)
            · intro later hmem
              exact hlater later (List.mem_of_mem_tail hmem)

end Turns

/-- The turns over a full ring. -/
theorem turns_inBounds {buffer : IoRingBuffer 68} (hwf : buffer.WellFormed)
    (hfull : buffer.readable = length) (infoHash : Vector Byte 20) (peerId : Option (Vector Byte 20)) :
    ∀ turn ∈ turns buffer infoHash peerId, InBounds turn.1 turn.2 := by
  have hread := hwf.read_lt
  have hbytes := hwf.preparedBytes_prepareRead
  rw [hfull, Prepare.preparedBytes, length] at hbytes
  apply decodeTurns_inBounds
  · apply Nat.lt_of_le_of_lt (le_of_le_of_eq (Nat.le_add_left _ _) hbytes)
    decide
  · intro index hindex
    have hzero : index = 0 := by
      cases hn : buffer.prepareRead.preparedIovecs with
      | zero =>
          rw [hn] at hindex
          cases hindex
      | succ n =>
          rw [hn, List.range_succ_eq_map] at hindex
          exact (Option.some.inj hindex).symm
    rw [if_pos hzero]
    exact hbytes.ge
  · intro index hindex
    rw [List.tail_range] at hindex
    obtain ⟨hpos, -⟩ := List.mem_range'_1.mp hindex
    exact Nat.ne_of_gt hpos

/-! ### Every position of the ring -/

theorem decodeOutcome_valid (infoHash : Vector Byte 20) (peerId : Option (Vector Byte 20))
    (view : List Byte) :
    (decodeOutcome infoHash peerId view).1 = true ↔
      view.head? = some 19 ∧ infoHashField view = infoHash.toList := by
  rw [decodeOutcome, infoHashField]
  by_cases hhead : view.head? = some 0x13
  · rw [if_pos hhead, hashOutcome]
    by_cases hhash : infoHash.toList = (view.drop 28).take 20
    · rw [if_pos hhash]
      exact ⟨fun _ => ⟨hhead, hhash.symm⟩, fun _ => rfl⟩
    · rw [if_neg hhash]
      exact ⟨fun h => Bool.noConfusion h, fun h => absurd h.2.symm hhash⟩
  · rw [if_neg hhead]
    exact ⟨fun h => Bool.noConfusion h, fun h => absurd h.1 hhead⟩

theorem decodeOutcome_peerId (infoHash : Vector Byte 20) (peerId : Option (Vector Byte 20))
    {view : List Byte} (hlength : view.length = length)
    (hvalid : (decodeOutcome infoHash peerId view).1 = true) :
    ∃ id, (decodeOutcome infoHash peerId view).2 = some id ∧ id.toList = (view.drop 48).take 20 := by
  obtain ⟨hhead, hhash⟩ := (decodeOutcome_valid infoHash peerId view).mp hvalid
  have hfield : ((view.drop 48).take 20).length = 20 := by
    rw [List.length_take, List.length_drop, hlength]
    rfl
  rw [infoHashField] at hhash
  rw [decodeOutcome, if_pos hhead, hashOutcome, if_pos hhash.symm, List.drop_drop]
  exact ⟨_, rfl, copyInto_full _ hfield⟩

theorem decodeOutcome_invalid (infoHash : Vector Byte 20) (peerId : Option (Vector Byte 20))
    (view : List Byte) (hinvalid : (decodeOutcome infoHash peerId view).1 = false) :
    (decodeOutcome infoHash peerId view).2 = peerId := by
  rw [decodeOutcome, hashOutcome] at hinvalid ⊢
  split at hinvalid
  · rename_i hhead
    rw [if_pos hhead]
    split at hinvalid
    · cases hinvalid
    · rename_i hhash
      rw [if_neg hhash]
  · rename_i hhead
    rw [if_neg hhead]

/-- **Decoding does not depend on where the ring is cut.** A full ring is decoded by its bytes alone, as
any other ring with the same bytes is; its 68 bytes are taken, the peer id is kept when they are valid, and
no turn steals more than the second iovec has. With less than a handshake nothing changes. -/
theorem decode_wrap_independent {buffer : IoRingBuffer 68} (hwf : buffer.WellFormed)
    (infoHash : Vector Byte 20) (peerId : Option (Vector Byte 20)) :
    (buffer.readable < length → decode buffer infoHash peerId = (⟨false, false⟩, buffer, peerId)) ∧
      (buffer.readable = length → ∃ valid peerId',
        decode buffer infoHash peerId = (⟨true, valid⟩, buffer.commitRead length, peerId') ∧
          (buffer.commitRead length).WellFormed ∧ (buffer.commitRead length).contents = [] ∧
          (valid = true ↔
            buffer.contents.head? = some 19 ∧ infoHashField buffer.contents = infoHash.toList) ∧
          (valid = true → ∃ id, peerId' = some id ∧ id.toList = (buffer.contents.drop 48).take 20) ∧
          (valid = false → peerId' = peerId) ∧
          (∀ other : IoRingBuffer 68, other.WellFormed → other.contents = buffer.contents →
            (decode other infoHash peerId).1 = ⟨true, valid⟩ ∧
              (decode other infoHash peerId).2.2 = peerId') ∧
          ∀ turn ∈ turns buffer infoHash peerId, Stolen turn.1.second turn.2.state.second) := by
  refine ⟨fun hshort => decode_incomplete hwf hshort infoHash peerId, fun hfull => ?_⟩
  have hlength : buffer.contents.length = length := (IoRingBuffer.length_contents buffer).trans hfull
  have hempty : (buffer.commitRead length).contents = [] := by
    rw [IoRingBuffer.contents_commitRead buffer hfull.ge]
    exact List.drop_of_length_le hlength.le
  refine ⟨_, _, decode_full hwf hfull infoHash peerId, hwf.commitRead hfull.ge, hempty,
    decodeOutcome_valid infoHash peerId _, decodeOutcome_peerId infoHash peerId hlength,
    decodeOutcome_invalid infoHash peerId _, ?_, ?_⟩
  · intro other hother hsame
    have hotherFull : other.readable = length := by
      rw [← IoRingBuffer.length_contents, hsame, hlength]
    rw [decode_full hother hotherFull, hsame]
    exact ⟨rfl, rfl⟩
  · intro turn hturn
    exact (turns_inBounds hwf hfull infoHash peerId turn hturn).stolen

/-- A ring that holds the bytes from cell 30 on. -/
def cutRing (bytes : List Byte) : IoRingBuffer 68 := (Exchange.offsetRing 30).produce bytes

theorem cutRing_wellFormed {bytes : List Byte} (hlength : bytes.length = length) :
    (cutRing bytes).WellFormed :=
  IoRingBuffer.WellFormed.produce ⟨by decide, by decide, rfl⟩ hlength.le

theorem decode_wrap_independent_cut :
    ∃ valid peerId', decode (cutRing (computeHandshake (.replicate 20 7))) (.replicate 20 7) none =
        (⟨true, valid⟩, (cutRing (computeHandshake (.replicate 20 7))).commitRead length, peerId') ∧
      (valid = true → ∃ id, peerId' = some id ∧ id.toList = clientId) := by
  obtain ⟨valid, peerId', hdecode, -, -, -, hid, -⟩ :=
    (decode_wrap_independent (cutRing_wellFormed (length_computeHandshake (.replicate 20 7)))
      (.replicate 20 7) none).2 (by decide +kernel)
  exact ⟨valid, peerId', hdecode, hid⟩

/-! ### The accepted set -/

/-- The bytes at the offsets of the protocol string. -/
def protocolField (handshake : List Byte) : List Byte := (handshake.drop 1).take 19

/-- What `compute_handshake` lays out for a torrent, with any reserved bytes and any peer id. -/
def IsHandshake (infoHash : Vector Byte 20) (handshake : List Byte) : Prop :=
  ∃ reserved peerId : List Byte, reserved.length = 8 ∧ peerId.length = 20 ∧
    handshake = [19] ++ protocolString ++ reserved ++ infoHash.toList ++ peerId

theorem computeHandshake_isHandshake (infoHash : Vector Byte 20) :
    IsHandshake infoHash (computeHandshake infoHash) :=
  ⟨reservedBytes, clientId, rfl, rfl, rfl⟩

/-- A handshake field by field. -/
theorem isHandshake_iff (infoHash : Vector Byte 20) {handshake : List Byte}
    (hlength : handshake.length = length) :
    IsHandshake infoHash handshake ↔
      handshake.head? = some 19 ∧ protocolField handshake = protocolString ∧
        infoHashField handshake = infoHash.toList := by
  constructor
  · rintro ⟨reserved, peerId, hreserved, -, rfl⟩
    have hrest : ([19] ++ protocolString ++ reserved ++ infoHash.toList ++ peerId).drop 28 =
        infoHash.toList ++ peerId := by
      rw [List.append_assoc ([19] ++ protocolString ++ reserved)]
      apply List.drop_left'
      rw [List.length_append, hreserved]
      rfl
    refine ⟨rfl, ?_, ?_⟩
    · have hstring : ([19] ++ protocolString ++ reserved ++ infoHash.toList ++ peerId).drop 1 =
          protocolString ++ (reserved ++ (infoHash.toList ++ peerId)) := by
        simp only [List.append_assoc]
        rfl
      rw [protocolField, hstring]
      exact List.take_left' rfl
    · rw [infoHashField, hrest]
      exact List.take_left' infoHash.length_toList
  · rintro ⟨hhead, hprotocol, hhash⟩
    obtain ⟨rest, rfl⟩ := List.head?_eq_some_iff.mp hhead
    have hrest : rest.length = 67 := Nat.succ_injective hlength
    refine ⟨(rest.drop 19).take 8, rest.drop 47, ?_, ?_, ?_⟩
    · rw [List.length_take, List.length_drop, hrest]
      rfl
    · rw [List.length_drop, hrest]
    · have hfirst : rest.take 19 = protocolString := hprotocol
      have hmiddle : (rest.drop 27).take 20 = infoHash.toList := hhash
      rw [← hfirst, ← hmiddle, List.append_assoc, List.append_assoc, List.append_assoc,
        ← show 27 + 20 = 47 from rfl, ← List.drop_drop, List.take_append_drop,
        ← show 19 + 8 = 27 from rfl, ← List.drop_drop, List.take_append_drop, List.take_append_drop]
      rfl

/-- **Which bytes are reported valid.** The length byte and the info hash are compared, the protocol
string is skipped like the reserved bytes: a valid handshake has the encoder's layout exactly when its
protocol string is the right one. -/
theorem decode_valid_iff {buffer : IoRingBuffer 68} (hwf : buffer.WellFormed)
    (hfull : buffer.readable = length) (infoHash : Vector Byte 20) (peerId : Option (Vector Byte 20)) :
    ((decode buffer infoHash peerId).1.valid = true ↔
        buffer.contents.head? = some 19 ∧ infoHashField buffer.contents = infoHash.toList) ∧
      (IsHandshake infoHash buffer.contents ↔
        (decode buffer infoHash peerId).1.valid = true ∧
          protocolField buffer.contents = protocolString) := by
  have hlength : buffer.contents.length = length := (IoRingBuffer.length_contents buffer).trans hfull
  have hvalid := decodeOutcome_valid infoHash peerId buffer.contents
  rw [decode_full hwf hfull]
  refine ⟨hvalid, ?_⟩
  rw [isHandshake_iff infoHash hlength, hvalid]
  tauto

theorem decode_valid_iff_cut :
    (decode (cutRing (computeHandshake (.replicate 20 7))) (.replicate 20 7) none).1.valid = true := by
  have hcontents : (cutRing (computeHandshake (.replicate 20 7))).contents =
      computeHandshake (.replicate 20 7) := by decide +kernel
  have haccepted := (decode_valid_iff (cutRing_wellFormed (length_computeHandshake (.replicate 20 7)))
    (by decide +kernel) (.replicate 20 7) none).2
  rw [hcontents] at haccepted
  exact (haccepted.mp (computeHandshake_isHandshake _)).1

/-- A handshake of another protocol, whose name has 19 bytes too. -/
def otherProtocol : List Byte :=
  [19] ++ List.replicate 19 0 ++ reservedBytes ++ (Vector.replicate 20 (7 : Byte)).toList ++ clientId

/-- **Another protocol is reported valid.** -/
theorem decode_accepts_other_protocol :
    (cutRing otherProtocol).WellFormed ∧ (cutRing otherProtocol).readable = length ∧
      (decode (cutRing otherProtocol) (.replicate 20 7) none).1 = ⟨true, true⟩ ∧
      ¬ IsHandshake (.replicate 20 7) (cutRing otherProtocol).contents := by
  have hcontents : (cutRing otherProtocol).contents = otherProtocol := by decide +kernel
  refine ⟨cutRing_wellFormed rfl, by decide +kernel, by decide +kernel, ?_⟩
  rw [hcontents, isHandshake_iff _ rfl]
  intro h
  exact absurd h.2.1 (by decide +kernel)

end TorrentEngine.Handshake
