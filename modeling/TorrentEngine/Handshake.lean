import TorrentEngine.PeerContact
import TorrentEngine.RingBuffer
import TorrentEngine.SizeT

/-! `bittorrent_messages::handshake`: the 68 bytes both ends of a connection send first, written into
and read from the two iovecs of a ring. -/

open CyclicCells

namespace TorrentEngine.Handshake

/-- `length::handshake`. -/
def length : Nat := 68

def protocolString : List Byte := ("BitTorrent protocol".toList).map ascii

def reservedBytes : List Byte := List.replicate 8 0

def clientId : List Byte := ("FJ0001-x4Kn8mR2pL9sq".toList).map ascii

/-- `compute_handshake`. -/
def computeHandshake (infoHash : Vector Byte 20) : List Byte :=
  [19] ++ protocolString ++ reservedBytes ++ infoHash.toList ++ clientId

/-- The bytes at the offsets of the info hash. -/
def infoHashField (handshake : List Byte) : List Byte := (handshake.drop 28).take 20

theorem length_computeHandshake (infoHash : Vector Byte 20) :
    (computeHandshake infoHash).length = length := by
  simp only [computeHandshake, List.length_append, Vector.length_toList]
  rfl

/-! ### Encoding -/

variable {N : Nat}

structure EncodeLoop (N : Nat) where
  buffer : IoRingBuffer N
  /-- `frame_cursor`: how much of the message has been written. -/
  cursor : Nat
  complete : Bool

/-- The loop over the prepared iovecs. -/
def encodeIovecs (handshake : List Byte) : List Iovec → EncodeLoop N → EncodeLoop N
  | [], s => s
  | ioPath :: ioPaths, s =>
      if ioPath.len = 0 then s
      else
        let ioLength := min (length - s.cursor) ioPath.len
        let copied := (handshake.drop s.cursor).take ioLength
        let buffer : IoRingBuffer N :=
          { s.buffer with buffer := store s.buffer.buffer ioPath.cells copied }
        let s := ⟨buffer.commitWrite ioLength, s.cursor + ioLength, s.complete⟩
        if s.cursor = length then { s with complete := true } else encodeIovecs handshake ioPaths s

def encode (handshake : List Byte) (buffer : IoRingBuffer N) (cursor : Nat) : EncodeLoop N :=
  if length ≤ cursor then ⟨buffer, cursor, true⟩
  else if buffer.prepareWrite.empty then ⟨buffer, cursor, false⟩
  else encodeIovecs handshake buffer.prepareWrite.iovecs ⟨buffer, cursor, false⟩

/-- **One call encodes the whole handshake** into an empty ring of its size that starts at its origin. -/
theorem encode_origin {buffer : IoRingBuffer 68} {handshake : List Byte}
    (hlength : handshake.length = length) (hwrite : buffer.write = 0) (hreadable : buffer.readable = 0) :
    encode handshake buffer 0 = ⟨buffer.produce handshake, length, true⟩ := by
  have hempty : buffer.empty = true := beq_iff_eq.mpr hreadable
  have hfull : buffer.full = false := by
    rw [IoRingBuffer.full, hreadable]
    rfl
  have hprepare : buffer.prepareWrite = ⟨1, ⟨0, 68⟩, .null⟩ := by
    rw [IoRingBuffer.prepareWrite, hfull, if_neg Bool.false_ne_true, hempty, hwrite,
      if_pos (Or.inr ⟨rfl, rfl⟩), IoRingBuffer.wAvailable, hreadable]
  have htake : handshake.take 68 = handshake := List.take_of_length_le (le_of_eq hlength)
  have hproduce : buffer.produce handshake =
      IoRingBuffer.commitWrite { buffer with buffer := store buffer.buffer (Iovec.cells ⟨0, 68⟩) handshake }
        68 := by
    rw [IoRingBuffer.produce, hprepare, hlength]
    rfl
  rw [encode, if_neg (by decide), hprepare, hproduce]
  simp [Prepare.empty, Prepare.iovecs, encodeIovecs, length, htake]

/-! ### Decoding -/

/-- The part of the handshake that the loop looks at next. -/
inductive DecodeRange where
  | pstrlen
  | pstr
  | reserved
  | infoHash
  | peerId
  deriving DecidableEq

/-- The variables of the loop. `wraparound_steal` moves the start of the second iovec. -/
structure DecodeState where
  range : DecodeRange
  valid : Bool
  second : Iovec
  peerId : Option (Vector Byte 20)

/-- How a turn of the loop ends. -/
inductive LoopTurn where
  | next (s : DecodeState)
  | stop (s : DecodeState)

structure DecodeResult where
  complete : Bool
  valid : Bool
  deriving DecidableEq

/-- The first bytes of the second iovec, and the rest of it. -/
def wraparoundSteal (storage : Nat → Byte) (second : Iovec) (size : Nat) : List Byte × Iovec :=
  ((List.range' second.base size).map storage, ⟨second.base + size, SizeT.sub second.len size⟩)

section Decode

variable (storage : Nat → Byte) (infoHash : Vector Byte 20)

def decodePeerId (s : DecodeState) (ioView : List Byte) : LoopTurn :=
  let peerId := s.peerId.getD (.replicate 20 0)
  if ioView.length < 20 then
    let (remaining, second) := wraparoundSteal storage s.second (20 - ioView.length)
    .stop { s with second, peerId := some (PeerContact.copyInto peerId (ioView ++ remaining)) }
  else .stop { s with peerId := some (PeerContact.copyInto peerId (ioView.take 20)) }

def decodeInfoHash (s : DecodeState) (ioView : List Byte) : LoopTurn :=
  if ioView.length < 20 then
    let (remaining, second) := wraparoundSteal storage s.second (20 - ioView.length)
    let valid := infoHash.toList.take ioView.length == ioView &&
      infoHash.toList.drop ioView.length == remaining
    if valid then .next { s with second, valid, range := .peerId } else .stop { s with second, valid }
  else
    let valid := infoHash.toList == ioView.take 20
    if valid then decodePeerId storage { s with valid, range := .peerId } (ioView.drop 20)
    else .stop { s with valid }

def decodeReserved (s : DecodeState) (ioView : List Byte) : LoopTurn :=
  if ioView.length < 8 then
    let (_, second) := wraparoundSteal storage s.second (8 - ioView.length)
    .next { s with second, valid := true, range := .infoHash }
  else decodeInfoHash storage infoHash { s with valid := true, range := .infoHash } (ioView.drop 8)

/-- The protocol string is skipped, not compared. -/
def decodePstr (s : DecodeState) (ioView : List Byte) : LoopTurn :=
  if ioView.length < 19 then
    let (_, second) := wraparoundSteal storage s.second (19 - ioView.length)
    .next { s with second, valid := true, range := .reserved }
  else decodeReserved storage infoHash { s with valid := true, range := .reserved } (ioView.drop 19)

def decodePstrlen (s : DecodeState) : List Byte → LoopTurn
  | [] => .next s
  | byte :: ioView =>
      let s := { s with valid := byte == 0x13 }
      if s.valid then decodePstr storage infoHash { s with range := .pstr } ioView else .stop s

/-- A turn of the loop enters at the part it has to look at and falls through to the later ones. -/
def decodeTurn (s : DecodeState) (ioView : List Byte) : LoopTurn :=
  match s.range with
  | .pstrlen => decodePstrlen storage infoHash s ioView
  | .pstr => decodePstr storage infoHash s ioView
  | .reserved => decodeReserved storage infoHash s ioView
  | .infoHash => decodeInfoHash storage infoHash s ioView
  | .peerId => decodePeerId storage s ioView

def decodeLoop (first : Iovec) : List Nat → DecodeState → DecodeState
  | [], s => s
  | index :: indices, s =>
      let iovec := if index = 0 then first else s.second
      match decodeTurn storage infoHash s (iovec.cells.map storage) with
      | .stop s => s
      | .next s => decodeLoop first indices s

end Decode

def decode (buffer : IoRingBuffer 68) (infoHash : Vector Byte 20) (peerId : Option (Vector Byte 20)) :
    DecodeResult × IoRingBuffer 68 × Option (Vector Byte 20) :=
  let prepare := buffer.prepareRead
  if prepare.preparedBytes < length then (⟨false, false⟩, buffer, peerId)
  else
    let s := decodeLoop buffer.buffer infoHash prepare.first (List.range prepare.preparedIovecs)
      ⟨.pstrlen, false, prepare.second, peerId⟩
    (⟨true, s.valid⟩, buffer.commitRead length, s.peerId)

/-- Less than a handshake is left where it is. -/
theorem decode_incomplete {buffer : IoRingBuffer 68} (hwf : buffer.WellFormed)
    (hshort : buffer.readable < length) (infoHash : Vector Byte 20)
    (peerId : Option (Vector Byte 20)) :
    decode buffer infoHash peerId = (⟨false, false⟩, buffer, peerId) := by
  rw [decode]
  exact if_pos (hwf.preparedBytes_prepareRead.trans_lt hshort)

/-- The state the loop ends in when one iovec shows the whole handshake. -/
def decodedLinear (infoHash : Vector Byte 20) (s : DecodeState) (view : List Byte) : DecodeState :=
  if view.head? = some 0x13 then
    if infoHash.toList = infoHashField view then
      { s with
        valid := true
        range := .peerId
        peerId := some (PeerContact.copyInto (s.peerId.getD (.replicate 20 0)) ((view.drop 48).take 20)) }
    else { s with valid := false, range := .infoHash }
  else { s with valid := false }

theorem decodeTurn_linear (storage : Nat → Byte) (infoHash : Vector Byte 20) (s : DecodeState)
    {view : List Byte} (hview : view.length = length) (hrange : s.range = .pstrlen) :
    decodeTurn storage infoHash s view = .stop (decodedLinear infoHash s view) := by
  cases view with
  | nil => cases hview
  | cons byte rest =>
      have hrest : rest.length = 67 := by
        rw [List.length_cons] at hview
        exact Nat.succ_injective hview
      have h19 : ¬ rest.length < 19 := by omega
      have h8 : ¬ (rest.drop 19).length < 8 := by rw [List.length_drop]; omega
      have h20 : ¬ ((rest.drop 19).drop 8).length < 20 := by
        rw [List.length_drop, List.length_drop]
        omega
      have hlast : ¬ (((rest.drop 19).drop 8).drop 20).length < 20 := by
        rw [List.length_drop, List.length_drop, List.length_drop]
        omega
      simp only [decodeTurn, hrange, decodePstrlen, decodedLinear, List.head?_cons, Option.some.injEq]
      by_cases hbyte : byte = 0x13
      · subst hbyte
        simp only [beq_self_eq_true, if_true, decodePstr, if_neg h19, decodeReserved, if_neg h8,
          decodeInfoHash, if_neg h20]
        have hfield : infoHashField (0x13 :: rest) = ((rest.drop 19).drop 8).take 20 := by
          rw [infoHashField, List.drop_drop]
          rfl
        rw [hfield]
        by_cases hhash : infoHash.toList = ((rest.drop 19).drop 8).take 20
        · simp only [hhash, beq_self_eq_true, if_true, decodePeerId]
          rw [if_neg hlast, List.drop_drop, List.drop_drop]
          rfl
        · simp only [beq_eq_false_iff_ne.mpr hhash, Bool.false_eq_true, if_false, if_neg hhash]
      · simp [hbyte]

/-- **A full ring at its origin is decoded and emptied.** It is valid only when its info hash is the
one expected. -/
theorem decode_origin {buffer : IoRingBuffer 68} (hwf : buffer.WellFormed) (hread : buffer.read = 0)
    (hfull : buffer.readable = length) (infoHash : Vector Byte 20) (peerId : Option (Vector Byte 20)) :
    ∃ valid peerId', decode buffer infoHash peerId =
        (⟨true, valid⟩, buffer.commitRead length, peerId') ∧
      (valid = true → infoHashField buffer.contents = infoHash.toList) := by
  have hprepare : buffer.prepareRead = ⟨1, ⟨0, 68⟩, .null⟩ := by
    have hempty : buffer.empty = false := by
      rw [IoRingBuffer.empty, hfull]
      rfl
    have hisFull : buffer.full = true := beq_iff_eq.mpr hfull
    rw [IoRingBuffer.prepareRead, hempty, if_neg Bool.false_ne_true, hisFull, hread,
      if_pos (Or.inr ⟨rfl, rfl⟩), hfull]
    rfl
  have hgather := hwf.gather_prepareRead
  rw [hprepare] at hgather
  have hview : (Iovec.cells ⟨0, 68⟩).map buffer.buffer = buffer.contents := by
    rw [← hgather]
    rfl
  have hlength : buffer.contents.length = length := (IoRingBuffer.length_contents buffer).trans hfull
  have hloop : ∀ s : DecodeState, s.range = .pstrlen →
      decodeLoop buffer.buffer infoHash ⟨0, 68⟩ (List.range 1) s =
        decodedLinear infoHash s buffer.contents := by
    intro s hs
    rw [List.range_succ, List.range_zero, List.nil_append, decodeLoop, if_pos rfl, hview,
      decodeTurn_linear _ _ _ hlength hs]
  let s := decodedLinear infoHash ⟨.pstrlen, false, .null, peerId⟩ buffer.contents
  refine ⟨s.valid, s.peerId, ?_, ?_⟩
  · rw [decode, hprepare]
    simp only [Prepare.preparedBytes, Iovec.null, length, Nat.add_zero, lt_self_iff_false, if_false]
    rw [hloop _ rfl]
    rfl
  · intro hvalid
    simp only [s, decodedLinear] at hvalid
    split at hvalid
    · split at hvalid
      · rename_i hhash
        exact hhash.symm
      · cases hvalid
    · cases hvalid

end TorrentEngine.Handshake
