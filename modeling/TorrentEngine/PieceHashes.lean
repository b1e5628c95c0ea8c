import TorrentEngine.Library.Tiling
import TorrentEngine.TorrentFile

/-! `get_piece_hash`: the hash of a piece as a view of 20 bytes of the `pieces` string. The offset of the
view passes through an `int`. -/

namespace TorrentEngine

open Bencode Tiling

/-- A `std::string_view` into a string: where it starts in it, and its size. -/
structure StringView where
  start : Nat
  size : Nat
  deriving DecidableEq, Repr

def StringView.chars (view : StringView) (string : ByteString) : List Byte :=
  (string.bytes.drop view.start).take view.size

namespace TorrentFile

def hashLength : Nat := 20

/-- `int hash_index = index * hash_length`. -/
def hashIndex (index : Nat) : Int := SizeT.toInt32 (SizeT.mul index hashLength)

/-- The index is asserted to be within the piece count. A subscript past the terminator of the string is
undefined. -/
def getPieceHash (torrent : TorrentFile) (index : Nat) : Except Fault StringView :=
  if index < torrent.pieceCount then do
    let pieceHashes ← torrent.pieces
    if SizeT.ofInt (hashIndex index) ≤ pieceHashes.size then
      pure ⟨SizeT.ofInt (hashIndex index), hashLength⟩
    else .error .undefined
  else .error .undefined

/-! ### The `pieces` string of an accepted torrent -/

theorem parsePieces_pieces {torrent parsed : TorrentFile}
    (h : parsePieces torrent = .ok (some parsed)) :
    ∃ pieces, torrent.pieces = .ok pieces ∧ pieces.size = 20 * parsed.pieceCount := by
  rw [parsePieces] at h
  obtain ⟨pieces, hpieces, h₁⟩ := Except.bind_eq_ok.mp h
  split at h₁
  · cases h₁
  · rename_i hwhole
    obtain ⟨pieceLength, -, h₂⟩ := Except.bind_eq_ok.mp h₁
    obtain ⟨expected, -, h₃⟩ := Except.bind_eq_ok.mp h₂
    split at h₃
    · cases h₃
    · cases h₃
      refine ⟨pieces, hpieces, ?_⟩
      dsimp only
      omega

theorem pieces_congr {torrent torrent' : TorrentFile} (h : torrent.transcibe = torrent'.transcibe) :
    torrent.pieces = torrent'.pieces := by
  rw [pieces, pieces, infoMap, infoMap, h]

theorem parseTranscription_pieces {torrent parsed : TorrentFile}
    (h : parseTranscription torrent = .ok (some parsed)) :
    ∃ pieces, parsed.pieces = .ok pieces ∧ pieces.size = 20 * parsed.pieceCount := by
  obtain ⟨info, measured, -, -, hpieces⟩ := parseTranscription_spec h
  have hsame : parsed.transcibe = measured.transcibe := by
    rw [(parsePieces_spec hpieces).1]
  rw [pieces_congr hsame]
  exact parsePieces_pieces hpieces

/-- The hash starts where its index says exactly while the offset is an `int`. -/
theorem getPieceHash_eq_iff {torrent : TorrentFile} {pieces : ByteString}
    (hpieces : torrent.pieces = .ok pieces) (hsize : pieces.size = 20 * torrent.pieceCount)
    {index : Nat} (hindex : index < torrent.pieceCount) :
    getPieceHash torrent index = .ok ⟨20 * index, 20⟩ ↔ 20 * index < 2 ^ 31 := by
  have hlt : pieces.size < 2 ^ 63 := pieces.size_lt
  have hmul : SizeT.mul index hashLength = 20 * index := by
    rw [hashLength, SizeT.mul_of_lt (by omega), Nat.mul_comm]
  have hback : SizeT.ofInt (hashIndex index) = 20 * index ↔ 20 * index < 2 ^ 31 := by
    rw [hashIndex, hmul]
    exact SizeT.ofInt_toInt32_eq_iff (by omega)
  rw [getPieceHash, if_pos hindex, ← hback]
  generalize SizeT.ofInt (hashIndex index) = position
  constructor
  · intro hview
    obtain ⟨pieceHashes, -, hrest⟩ := Except.bind_eq_ok.mp hview
    split at hrest
    · cases hrest
      rfl
    · cases hrest
  · intro hsame
    refine Except.bind_eq_ok.mpr ⟨pieces, hpieces, ?_⟩
    rw [if_pos (by omega), hsame]
    rfl

/-- Past the string there is no hash to return. -/
theorem getPieceHash_of_lt {torrent : TorrentFile} {pieces : ByteString}
    (hpieces : torrent.pieces = .ok pieces) {index : Nat} (hindex : index < torrent.pieceCount)
    (hpast : pieces.size < SizeT.ofInt (hashIndex index)) :
    getPieceHash torrent index = .error .undefined := by
  rw [getPieceHash, if_pos hindex]
  refine Except.bind_eq_error.mpr (.inr ⟨pieces, hpieces, ?_⟩)
  rw [if_neg (Nat.not_le.mpr hpast)]

/-- The `pieces` string of an accepted torrent is the hashes of its pieces one after the other, 20 bytes
each, and `get_piece_hash` returns the bytes of a piece, all of them within the string, exactly up to index
107374182, the last one whose offset is an `int`. -/
theorem getPieceHash_iff {transcibe : Dictionary} {hash : Digest} {torrent : TorrentFile}
    (hparsed : parseTranscription (unparsed transcibe hash) = .ok (some torrent)) :
    ∃ pieces, torrent.pieces = .ok pieces ∧
      ((List.range torrent.pieceCount).flatMap fun index =>
        (⟨20 * index, 20⟩ : StringView).chars pieces) = pieces.bytes ∧
      ∀ index < torrent.pieceCount,
        (getPieceHash torrent index = .ok ⟨20 * index, 20⟩ ∧ 20 * index + 20 ≤ pieces.size) ↔
          index ≤ 107374182 := by
  obtain ⟨pieces, hpieces, hsize⟩ := parseTranscription_pieces hparsed
  refine ⟨pieces, hpieces, ?_, ?_⟩
  · have hchunks := flatMap_chunks pieces.bytes 20 torrent.pieceCount
    rw [List.take_of_length_le (by rw [← ByteString.size, hsize, Nat.mul_comm])] at hchunks
    calc ((List.range torrent.pieceCount).flatMap fun index =>
          (⟨20 * index, 20⟩ : StringView).chars pieces)
        = (List.range torrent.pieceCount).flatMap fun index =>
            (pieces.bytes.drop (index * 20)).take 20 := by
          apply List.flatMap_congr
          intro index hindex
          rw [StringView.chars, Nat.mul_comm]
      _ = pieces.bytes := hchunks
  · intro index hindex
    rw [getPieceHash_eq_iff hpieces hsize hindex]
    constructor
    · intro h
      omega
    · intro h
      omega

/-! A torrent of one file of `n` bytes in pieces of one byte each. -/

section Wide

variable (n : Nat) (h : n < 2 ^ 58)

def wideHashes : ByteString :=
  ⟨List.replicate (20 * n) 0, by
    rw [List.length_replicate]
    omega⟩

def wideInfo : Dictionary :=
  [(.ofString "length", .integer (Int64.ofNat n) ⟨0, 0⟩),
    (.ofString "name", .string (.ofString "n") ⟨0, 0⟩),
    (.ofString "piece length", .integer 1 ⟨0, 0⟩),
    (.ofString "pieces", .string (wideHashes n h) ⟨0, 0⟩)]

def wideTranscibe : Dictionary :=
  [(.ofString "info", .dictionary (wideInfo n h) ⟨0, 0⟩)]

def wideTorrent : TorrentFile :=
  ⟨wideTranscibe n h, .replicate 20 0, true, Int64.ofNat n, n, 1⟩

theorem size_wideHashes : (wideHashes n h).size = 20 * n := List.length_replicate

theorem ceilDiv_one (a : Nat) : ceilDiv a 1 = .ok a := by
  rw [ceilDiv, if_neg Nat.one_ne_zero, Nat.div_one, Nat.mod_one, if_neg (by decide)]
  rfl

theorem wideTorrent_accepted :
    parseTranscription (unparsed (wideTranscibe n h) (.replicate 20 0)) =
      .ok (some (wideTorrent n h)) := by
  have hlengths : parseLengths (unparsed (wideTranscibe n h) (.replicate 20 0)) (wideInfo n h) =
      .ok (some { wideTorrent n h with pieceCount := 0 }) := rfl
  have hdownload : SizeT.ofInt (Int64.ofNat n).toInt = n := by
    rw [Int64.toInt_ofNat_of_lt (by omega), SizeT.ofInt_of_nonneg (by omega) (by omega),
      Int.toNat_natCast]
  have hone : SizeT.ofInt (1 : Int64).toInt = 1 := by decide
  have hpieces : parsePieces { wideTorrent n h with pieceCount := 0 } =
      .ok (some (wideTorrent n h)) := by
    refine Except.bind_eq_ok.mpr ⟨wideHashes n h, rfl, ?_⟩
    rw [size_wideHashes, if_neg (by omega)]
    refine Except.bind_eq_ok.mpr ⟨1, rfl, Except.bind_eq_ok.mpr ⟨n, ?_, ?_⟩⟩
    · rw [hone, ceilDiv_one]
      exact congrArg Except.ok hdownload
    · rw [if_neg (by omega), Nat.mul_div_cancel_left n (by decide)]
      rfl
  refine Except.bind_eq_ok.mpr ⟨wideInfo n h, rfl, ?_⟩
  exact Except.bind_eq_ok.mpr ⟨_, hlengths, hpieces⟩

end Wide

theorem getPieceHash_iff_wide :
    ∃ pieces, (wideTorrent 2 (by decide)).pieces = .ok pieces ∧
      ((List.range 2).flatMap fun index => (⟨20 * index, 20⟩ : StringView).chars pieces) =
        pieces.bytes ∧
      ∀ index < 2,
        (getPieceHash (wideTorrent 2 (by decide)) index = .ok ⟨20 * index, 20⟩ ∧
          20 * index + 20 ≤ pieces.size) ↔ index ≤ 107374182 :=
  getPieceHash_iff (wideTorrent_accepted 2 (by decide))

/-- Of a file of 107374184 bytes in pieces of one byte each, the last hash is looked for at a negative
`int`. -/
theorem getPieceHash_wide : ∃ h,
    parseTranscription (unparsed (wideTranscibe 107374184 h) (.replicate 20 0)) =
        .ok (some (wideTorrent 107374184 h)) ∧
      107374183 < (wideTorrent 107374184 h).pieceCount ∧
      getPieceHash (wideTorrent 107374184 h) 107374183 = .error .undefined := by
  refine ⟨by decide, wideTorrent_accepted _ _, by decide, ?_⟩
  apply @getPieceHash_of_lt _ (wideHashes 107374184 (by decide)) rfl _ (by decide)
  rw [size_wideHashes]
  decide

end TorrentFile

end TorrentEngine
