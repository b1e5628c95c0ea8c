import Mathlib.Tactic.IntervalCases
import TorrentEngine.DynamicBitset

/-! The wire format of a bitset: `encode_as_payload`, and how it undoes `decode_as_payload` and is undone
by it. -/

open PackedBits

namespace TorrentEngine

/-- `std::endian::native`. -/
inductive Endian where
  | little
  | big
  deriving DecidableEq

/-- The bytes of a word, the most significant first. -/
def networkBytes (word : BitVec 64) : List Byte := (pieces 8 word).map UInt8.ofBitVec

/-- The bytes of a word as they lie in memory. -/
def Endian.memory (endian : Endian) (word : BitVec 64) : List Byte :=
  match endian with
  | .little => (networkBytes word).reverse
  | .big => networkBytes word

/-- `h_word_to_n_word`. -/
def hWordToNWord (endian : Endian) (word : BitVec 64) : BitVec 64 :=
  match endian with
  | .little =>
      (word &&& 0x00000000000000FF) <<< 56 |||
      (word &&& 0x000000000000FF00) <<< 40 |||
      (word &&& 0x0000000000FF0000) <<< 24 |||
      (word &&& 0x00000000FF000000) <<< 8 |||
      (word &&& 0x000000FF00000000) >>> 8 |||
      (word &&& 0x0000FF0000000000) >>> 24 |||
      (word &&& 0x00FF000000000000) >>> 40 |||
      (word &&& 0xFF00000000000000) >>> 56
  | .big => word

namespace DynamicBitset

/-- The loop of `encode_as_payload` over the words that are left, with the target that is left: what the
target is in the end, and how many bytes have been encoded. -/
def encodeLoop (endian : Endian) (total : Nat) :
    List (BitVec 64) → List Byte → Nat → Nat → List Byte × Nat
  | [], target, encodedBytes, _ => (target, encodedBytes)
  | word :: words, target, encodedBytes, byteOffset =>
      let currentWord := hWordToNWord endian word
      let startByte := (endian.memory currentWord).drop byteOffset
      let remainingEncodeBytes := total - encodedBytes
      let currentWordRemainingBytes := 8 - byteOffset
      let n := min target.length (min remainingEncodeBytes currentWordRemainingBytes)
      let encodedBytes := encodedBytes + n
      let rest := target.drop n
      let byteOffset := if byteOffset + n = 8 then 0 else byteOffset
      if rest = [] then (startByte.take n, encodedBytes)
      else
        match encodeLoop endian total words rest encodedBytes byteOffset with
        | (written, encodedBytes) => (startByte.take n ++ written, encodedBytes)

/-- The target afterwards, and how many bytes have been encoded, of which there are asserted to be no more
than the payload has. -/
def encodeAsPayload (s : DynamicBitset) (endian : Endian) (target : List Byte) (encodedBytes : Nat) :
    List Byte × Nat :=
  let total := bytesLength s.length
  if target = [] ∨ total ≤ encodedBytes then (target, encodedBytes)
  else
    encodeLoop endian total (s.bitfield.drop (encodedBytes / 8)) target encodedBytes (encodedBytes % 8)

variable {n k : Nat} {s t c : DynamicBitset} {A : Finset Nat} {bytes : List Byte}

/-! ### Words in network order -/

theorem getLsbD_hWordToNWord (word : BitVec 64) {i : Nat} (hi : i < 64) :
    (hWordToNWord .little word).getLsbD i = word.getLsbD (8 * (7 - i / 8) + i % 8) := by
  rw [hWordToNWord]
  interval_cases i <;> simp

theorem length_networkBytes (word : BitVec 64) : (networkBytes word).length = 8 := by
  rw [networkBytes, List.length_map, length_pieces]

theorem getElem_networkBytes (word : BitVec 64) {j : Nat} (hj : j < (networkBytes word).length) :
    (networkBytes word)[j] = UInt8.ofBitVec ((word >>> (64 - 8 * (j + 1))).setWidth 8) := by
  simp only [networkBytes, pieces, List.getElem_map, List.getElem_range]

/-- **A word that was converted lies in memory in network order**, on either kind of machine. -/
theorem memory_hWordToNWord (endian : Endian) (word : BitVec 64) :
    endian.memory (hWordToNWord endian word) = networkBytes word := by
  cases endian with
  | big => rfl
  | little =>
      refine List.ext_getElem ?_ fun j hj hj' => ?_
      · rw [Endian.memory, List.length_reverse, length_networkBytes, length_networkBytes]
      · have hlt : j < 8 := (length_networkBytes word) ▸ hj'
        simp only [Endian.memory, List.getElem_reverse, getElem_networkBytes, length_networkBytes]
        congr 1
        refine BitVec.eq_of_getLsbD_eq fun i hi => ?_
        rw [BitVec.getLsbD_setWidth, BitVec.getLsbD_setWidth, BitVec.getLsbD_ushiftRight,
          BitVec.getLsbD_ushiftRight, getLsbD_hWordToNWord word (by omega)]
        congr 2
        omega

/-- The bytes of a bitset on the wire. -/
def encoding (s : DynamicBitset) : List Byte := (s.bitfield.flatMap networkBytes).take (bytesLength s.length)

theorem length_flatMap_networkBytes (words : List (BitVec 64)) :
    (words.flatMap networkBytes).length = 8 * words.length := by
  induction words with
  | nil => rfl
  | cons word words ih =>
      rw [List.flatMap_cons, List.length_append, length_networkBytes, ih, List.length_cons]
      omega

theorem drop_flatMap_networkBytes (words : List (BitVec 64)) (q : Nat) :
    (words.drop q).flatMap networkBytes = (words.flatMap networkBytes).drop (8 * q) := by
  induction q generalizing words with
  | zero => rfl
  | succ q ih =>
      cases words with
      | nil => rw [List.drop_nil, List.flatMap_nil, List.drop_nil]
      | cons word words =>
          have hfirst : (networkBytes word).drop (8 * (q + 1)) = [] := by
            refine List.drop_eq_nil_of_le ?_
            rw [length_networkBytes]
            omega
          rw [List.drop_succ_cons, ih, List.flatMap_cons, List.drop_append, length_networkBytes, hfirst,
            List.nil_append, show 8 * (q + 1) - 8 = 8 * q by omega]

/-! ### Encoding a payload -/

/-- **The loop writes the bytes that are left**, as many as there is room for. -/
theorem encodeLoop_eq (endian : Endian) (total : Nat) (words : List (BitVec 64)) (target : List Byte)
    (encodedBytes byteOffset : Nat) (hoffset : byteOffset ≤ 8)
    (hwords : total ≤ encodedBytes + (8 * words.length - byteOffset)) :
    encodeLoop endian total words target encodedBytes byteOffset =
      (((words.flatMap networkBytes).drop byteOffset).take (min target.length (total - encodedBytes)) ++
          target.drop (min target.length (total - encodedBytes)),
        encodedBytes + min target.length (total - encodedBytes)) := by
  induction words generalizing target encodedBytes byteOffset with
  | nil =>
      rw [List.length_nil] at hwords
      rw [encodeLoop, show total - encodedBytes = 0 by omega, Nat.min_zero, List.take_zero, List.drop_zero]
      rfl
  | cons word words ih =>
      rw [List.length_cons] at hwords
      have hstart : ((networkBytes word).drop byteOffset).length = 8 - byteOffset := by
        rw [List.length_drop, length_networkBytes]
      have hpayload : ((word :: words).flatMap networkBytes).drop byteOffset =
          (networkBytes word).drop byteOffset ++ words.flatMap networkBytes := by
        rw [List.flatMap_cons, List.drop_append_of_le_length]
        rw [length_networkBytes]
        exact hoffset
      obtain ⟨m, hm⟩ : ∃ m, m = min target.length (min (total - encodedBytes) (8 - byteOffset)) := ⟨_, rfl⟩
      rw [encodeLoop, hpayload]
      simp only [memory_hWordToNWord, ← hm]
      split
      · rename_i hrest
        have hlength : target.length ≤ m := List.drop_eq_nil_iff.mp hrest
        rw [show min target.length (total - encodedBytes) = m by omega, hrest, List.append_nil,
          List.take_append_of_le_length (by omega)]
      · rename_i hrest
        have hlength : m < target.length := by
          by_contra hle
          exact hrest (List.drop_eq_nil_of_le (Nat.le_of_not_lt hle))
        by_cases hword : byteOffset + m = 8
        · obtain ⟨r, hr⟩ : ∃ r, r = min (target.length - m) (total - (encodedBytes + m)) := ⟨_, rfl⟩
          rw [if_pos hword, ih _ _ 0 (Nat.zero_le 8) (by omega), List.drop_zero, List.length_drop, ← hr,
            show min target.length (total - encodedBytes) = (8 - byteOffset) + r by omega,
            List.take_of_length_le (by omega), List.drop_drop, Nat.add_assoc,
            show m + r = 8 - byteOffset + r by omega, ← List.append_assoc, ← hstart,
            List.take_length_add_append]
        · rw [if_neg hword, ih _ _ byteOffset hoffset (by omega), List.length_drop,
            show min (target.length - m) (total - (encodedBytes + m)) = 0 by omega,
            show min target.length (total - encodedBytes) = m by omega, List.take_zero, List.nil_append,
            List.drop_zero, Nat.add_zero, List.take_append_of_le_length (by omega)]

namespace Represents

theorem length_encoding (h : Represents s n A) : s.encoding.length = bytesLength n := by
  have hle := bytesLength_le n
  rw [encoding, List.length_take, length_flatMap_networkBytes, h.words, h.length]
  omega

/-- **`encode_as_payload`** goes on with the encoding where it was left. -/
theorem encodeAsPayload (h : Represents s n A) (endian : Endian) (target : List Byte) (encodedBytes : Nat) :
    s.encodeAsPayload endian target encodedBytes =
      ((s.encoding.drop encodedBytes).take (min target.length (bytesLength n - encodedBytes)) ++
          target.drop (min target.length (bytesLength n - encodedBytes)),
        encodedBytes + min target.length (bytesLength n - encodedBytes)) := by
  rw [DynamicBitset.encodeAsPayload, h.length]
  split
  · rename_i hnothing
    have hzero : min target.length (bytesLength n - encodedBytes) = 0 := by
      rcases hnothing with rfl | hdone
      · exact Nat.zero_min _
      · omega
    rw [hzero, List.take_zero, List.drop_zero]
    rfl
  · have hle := bytesLength_le n
    have hlength := h.words
    have hmod : encodedBytes % 8 < 8 := Nat.mod_lt _ (by decide)
    rw [encodeLoop_eq _ _ _ _ _ _ hmod.le (by rw [List.length_drop]; omega), drop_flatMap_networkBytes,
      List.drop_drop, Nat.div_add_mod, encoding, h.length, List.drop_take, List.take_take,
      Nat.min_eq_left (Nat.min_le_right _ _)]

/-- The bits on the wire are the bits of the words. -/
theorem payloadBit_encoding (h : Represents s n A) : payloadBit s.encoding k = true ↔ k ∈ A := by
  have hmap : s.encoding.map UInt8.toBitVec = (s.bitfield.flatMap (pieces 8)).take (bytesLength n) := by
    rw [encoding, List.map_take, List.map_flatMap, h.length]
    simp only [networkBytes, List.map_map]
    congr 2
  rw [payloadBit_eq, hmap, bit_take, bit_flatMap_pieces (by decide), Bool.and_eq_true, decide_eq_true_iff,
    h.bits]
  exact and_iff_right_of_imp fun hk => (h.below k hk).trans_le (bytesLength_bounds n).1

theorem encoding_fits (h : Represents s n A) : Fits n s.encoding :=
  ⟨h.length_encoding, fun _ _ hk => Bool.eq_false_iff.mpr fun hbit =>
    Nat.not_lt.mpr hk (h.below _ (h.payloadBit_encoding.mp hbit))⟩

/-- A set of indices has one bitset. -/
theorem unique (h : Represents s n A) (h' : Represents t n A) : s = t := by
  have hbitfield : s.bitfield = t.bitfield :=
    PackedBits.ext (h.words.trans h'.words.symm) fun k _ =>
      Bool.eq_iff_iff.mpr ((h.bits k).trans (h'.bits k).symm)
  have hlength := h.length.trans h'.length.symm
  cases s
  cases t
  exact congrArg₂ DynamicBitset.mk hbitfield hlength

end Represents

/-- Payloads of one length are what their bits are. -/
theorem payload_ext {bytes' : List Byte} (hlength : bytes.length = bytes'.length)
    (h : ∀ k, payloadBit bytes k = payloadBit bytes' k) : bytes = bytes' := by
  refine List.map_injective_iff.mpr (fun _ _ => UInt8.toBitVec_inj.mp)
    (PackedBits.ext (by rw [List.length_map, List.length_map, hlength]) fun k _ => ?_)
  rw [← payloadBit_eq, ← payloadBit_eq, h]

/-- **The wire format.** A cleared bitset accepts exactly the payloads of its length with the unused bits
zero, its indices are then the bits of the payload, and the same bytes are encoded from it. What is encoded
from any bitset is decoded to the same one. A payload that is rejected changes nothing. -/
theorem wire_format (hn : 0 < n) :
    (∀ c, Built n c ∅ → ∀ bytes, ∃ s accepted, c.decodeAsPayload bytes = some (s, accepted) ∧
      (accepted = true ↔ Fits n bytes) ∧
      (accepted = true → (∀ i < n, s.test i = payloadBit bytes i) ∧
        ∀ endian target, bytes.length ≤ target.length →
          s.encodeAsPayload endian target 0 = (bytes ++ target.drop bytes.length, bytes.length))) ∧
    (∀ s A c endian target, Built n s A → Built n c ∅ → bytesLength n ≤ target.length →
      (s.encodeAsPayload endian target 0).2 = bytesLength n ∧
        c.decodeAsPayload ((s.encodeAsPayload endian target 0).1.take (bytesLength n)) = some (s, true)) ∧
    ∀ s A bytes s', Built n s A → s.decodeAsPayload bytes = some (s', false) → s' = s := by
  refine ⟨fun c hc bytes => ?_, fun s A c endian target hs hc htarget => ?_,
    fun s A bytes s' hs hdecode => ?_⟩
  · obtain ⟨s, hdecode, -, hrep⟩ := hc.represents.decodeAsPayload hn bytes
    refine ⟨s, decide (Fits n bytes), hdecode, decide_eq_true_iff, fun haccepted => ?_⟩
    have hfits : Fits n bytes := of_decide_eq_true haccepted
    rw [if_pos hfits, Finset.empty_union] at hrep
    have hencoding : s.encoding = bytes := by
      refine payload_ext (hrep.length_encoding.trans hfits.1.symm) fun k => ?_
      exact Bool.eq_iff_iff.mpr (hrep.payloadBit_encoding.trans (mem_payload hfits))
    refine ⟨fun i _ => Bool.eq_iff_iff.mpr ((hrep.test_iff i).trans (mem_payload hfits)),
      fun endian target htarget => ?_⟩
    rw [hrep.encodeAsPayload, hencoding, Nat.sub_zero, ← hfits.1, Nat.min_eq_right htarget, List.drop_zero,
      List.take_length, Nat.zero_add]
  · have hrep := hs.represents
    obtain ⟨s', hdecode, -, hrep'⟩ := hc.represents.decodeAsPayload hn s.encoding
    have hfits := hrep.encoding_fits
    rw [decide_eq_true hfits] at hdecode
    rw [if_pos hfits, Finset.empty_union] at hrep'
    have hpayload : payload n s.encoding = A := by
      ext k
      exact (mem_payload hfits).trans hrep.payloadBit_encoding
    rw [hpayload] at hrep'
    rw [hrep.encodeAsPayload, Nat.sub_zero, Nat.min_eq_right htarget, List.drop_zero, Nat.zero_add,
      ← hrep.length_encoding, List.take_length, List.take_left, hdecode, hrep'.unique hrep]
    exact ⟨rfl, rfl⟩
  · obtain ⟨s'', hdecode', hkeeps, -⟩ := hs.represents.decodeAsPayload hn bytes
    rw [hdecode] at hdecode'
    cases hfits : decide (Fits n bytes) with
    | true =>
        rw [hfits] at hdecode'
        cases hdecode'
    | false =>
        rw [hfits] at hdecode'
        cases hdecode'
        exact hkeeps (of_decide_eq_false hfits)

theorem wire_format_sample : ∃ s, (ofCount 10).decodeAsPayload [0x2f, 0xc0] = some (s, true) ∧
    s.encodeAsPayload .little [0, 0, 7] 0 = ([0x2f, 0xc0, 7], 2) := by
  obtain ⟨s, accepted, hdecode, haccepted, hencode⟩ :=
    (wire_format (by decide)).1 (ofCount 10) .ofCount [0x2f, 0xc0]
  have htrue : accepted = true := haccepted.mpr (by decide)
  rw [htrue] at hdecode
  exact ⟨s, hdecode, (hencode htrue).2 .little [0, 0, 7] (by decide)⟩

/-! ### Encoding in chunks -/

/-- Calls of `encode_as_payload`, each with the count that the one before returned: the bytes written to the
targets, one target after the other, and the last count. -/
def encodeChunks (s : DynamicBitset) (endian : Endian) : List (List Byte) → Nat → List Byte × Nat
  | [], encodedBytes => ([], encodedBytes)
  | target :: targets, encodedBytes =>
      let call := s.encodeAsPayload endian target encodedBytes
      let chunks := encodeChunks s endian targets call.2
      (call.1.take (call.2 - encodedBytes) ++ chunks.1, chunks.2)

/-- A call writes the next bytes of the encoding, and leaves the rest of its target. -/
theorem Represents.encodeAsPayload_chunk (h : Represents s n A) (endian : Endian) (target : List Byte)
    {encodedBytes : Nat} (hle : encodedBytes ≤ bytesLength n) :
    let call := s.encodeAsPayload endian target encodedBytes
    call.2 = min (bytesLength n) (encodedBytes + target.length) ∧
      call.1.length = target.length ∧
      call.1.take (call.2 - encodedBytes) = (s.encoding.drop encodedBytes).take (call.2 - encodedBytes) ∧
      call.1.drop (call.2 - encodedBytes) = target.drop (call.2 - encodedBytes) := by
  obtain ⟨m, hm⟩ : ∃ m, m = min target.length (bytesLength n - encodedBytes) := ⟨_, rfl⟩
  have hlength : ((s.encoding.drop encodedBytes).take m).length = m := by
    rw [List.length_take, List.length_drop, h.length_encoding]
    omega
  rw [h.encodeAsPayload, ← hm]
  dsimp only
  rw [Nat.add_sub_cancel_left, List.take_left' hlength, List.drop_left' hlength, List.length_append,
    hlength, List.length_drop]
  exact ⟨by omega, by omega, rfl, rfl⟩

/-- **Chunks go on where the one before stopped.** -/
theorem Represents.encodeChunks (h : Represents s n A) (endian : Endian) (targets : List (List Byte))
    {encodedBytes : Nat} (hle : encodedBytes ≤ bytesLength n) :
    (s.encodeChunks endian targets encodedBytes).2 =
        min (bytesLength n) (encodedBytes + targets.flatten.length) ∧
      (s.encodeChunks endian targets encodedBytes).1 =
        (s.encoding.drop encodedBytes).take targets.flatten.length := by
  induction targets generalizing encodedBytes with
  | nil => exact ⟨(Nat.min_eq_right hle).symm, rfl⟩
  | cons target targets ih =>
      obtain ⟨hcount, -, hwritten, -⟩ := h.encodeAsPayload_chunk endian target hle
      obtain ⟨count, hcall⟩ : ∃ count, (s.encodeAsPayload endian target encodedBytes).2 = count := ⟨_, rfl⟩
      rw [hcall] at hcount hwritten
      obtain ⟨hlast, hrest⟩ := @ih count (by omega)
      rw [DynamicBitset.encodeChunks]
      dsimp only
      rw [hcall, hwritten, hlast, hrest, List.flatten_cons, List.length_append]
      refine ⟨by omega, ?_⟩
      rcases Nat.le_total (encodedBytes + target.length) (bytesLength n) with hroom | hfull
      · have hsub : count - encodedBytes = target.length := by omega
        rw [List.take_add, List.drop_drop, hsub, show encodedBytes + target.length = count by omega]
      · have hdone : s.encoding.drop count = [] := by
          apply List.drop_eq_nil_of_le
          rw [h.length_encoding]
          omega
        have hlength : (s.encoding.drop encodedBytes).length = count - encodedBytes := by
          rw [List.length_drop, h.length_encoding]
          omega
        rw [hdone, List.take_nil, List.append_nil, List.take_of_length_le hlength.le,
          List.take_of_length_le (by omega)]

/-- **Encoding in chunks is encoding at once.** Whatever the sizes of the targets, the bytes written to them
are those that one call with a large enough target writes, as many as there is room for; the count is the
number of bytes written so far; and the next call stays within its target. -/
theorem chunked_encoding (h : Built n s A) (endian : Endian) (targets : List (List Byte)) :
    (s.encodeChunks endian targets 0).2 = min (bytesLength n) targets.flatten.length ∧
      (∀ single : List Byte, bytesLength n ≤ single.length →
        (s.encodeChunks endian targets 0).1 =
          ((s.encodeAsPayload endian single 0).1.take (bytesLength n)).take targets.flatten.length) ∧
      ∀ target, let call := s.encodeAsPayload endian target (s.encodeChunks endian targets 0).2
        call.2 = min (bytesLength n) (targets.flatten.length + target.length) ∧
          call.1.length = target.length ∧
          call.1.drop (call.2 - (s.encodeChunks endian targets 0).2) =
            target.drop (call.2 - (s.encodeChunks endian targets 0).2) := by
  have hrep := h.represents
  obtain ⟨hcount, hwritten⟩ := hrep.encodeChunks endian targets (Nat.zero_le _)
  rw [Nat.zero_add] at hcount
  refine ⟨hcount, fun single hsingle => ?_, fun target => ?_⟩
  · obtain ⟨honce, -, hall, -⟩ := hrep.encodeAsPayload_chunk endian single (Nat.zero_le _)
    rw [Nat.zero_add, Nat.min_eq_left hsingle] at honce
    rw [honce, Nat.sub_zero, List.drop_zero] at hall
    rw [hall, hwritten, List.drop_zero, List.take_of_length_le hrep.length_encoding.le]
  · rw [hcount]
    obtain ⟨hnext, hlength, -, hrest⟩ := hrep.encodeAsPayload_chunk endian target
      (Nat.min_le_left (bytesLength n) targets.flatten.length)
    exact ⟨by omega, hlength, hrest⟩

theorem chunked_encoding_sample :
    (encodeChunks ⟨[0x2fc0000000000000#64], 10⟩ .little [[7], [], [7, 7, 7], [7]] 0).2 = 2 := by
  have hdecode : (ofCount 10).decodeAsPayload [0x2f, 0xc0] = some (⟨[0x2fc0000000000000#64], 10⟩, true) := by
    decide
  exact (chunked_encoding (Built.decodeAsPayload [0x2f, 0xc0] (by decide) .ofCount hdecode) .little
    [[7], [], [7, 7, 7], [7]]).1

/-! ### Payloads from a peer -/

/-- `decode_as_payload` reads bytes of the view and writes words that exist, and changes none of them when
the payload is not accepted. -/
def DecodesSafely (s : DynamicBitset) (bytes : List Byte) : Prop :=
  ∃ s' accepted, s.decodeAsPayload bytes = some (s', accepted) ∧
    s'.bitfield.length = s.bitfield.length ∧ (accepted = false → s' = s)

/-- **When decoding a payload is safe**: unless the bitset and the payload are both empty, when the size is
right and the last byte of the empty view is read. -/
theorem decodesSafely_iff (hwords : s.bitfield.length = wordsLength s.length) (bytes : List Byte) :
    s.DecodesSafely bytes ↔ ¬ (s.length = 0 ∧ bytes = []) := by
  constructor
  · rintro ⟨s', accepted, hdecode, -⟩ ⟨hzero, rfl⟩
    rw [DynamicBitset.decodeAsPayload, hzero,
      if_neg (not_not.mpr (show ([] : List Byte).length = bytesLength 0 from rfl))] at hdecode
    cases hdecode
  · intro hnot
    rw [DecodesSafely, DynamicBitset.decodeAsPayload]
    by_cases hlength : bytes.length = bytesLength s.length
    · rw [if_neg (not_not.mpr hlength)]
      have hne : bytes ≠ [] := by
        rintro rfl
        have hbounds := (bytesLength_bounds s.length).1
        rw [← hlength, List.length_nil] at hbounds
        exact hnot ⟨by omega, rfl⟩
      obtain ⟨endByte, hlast⟩ : ∃ endByte, bytes.getLast? = some endByte :=
        ⟨_, List.getLast?_eq_some_getLast hne⟩
      rw [hlast]
      dsimp only
      split
      · exact ⟨s, false, rfl, rfl, fun _ => rfl⟩
      · have hroom : 8 * (0 + bytes.length) ≤ 64 * s.bitfield.length := by
          rw [Nat.zero_add, hlength, hwords]
          exact bytesLength_le s.length
        obtain ⟨bitfield', hloop, hlength', -⟩ := decodeLoop_eq bytes s.bitfield 0 hroom
        rw [show decodeLoop bytes s.bitfield 0 7 = some bitfield' from hloop]
        exact ⟨_, true, rfl, hlength', fun h => Bool.noConfusion h⟩
    · rw [if_pos hlength]
      exact ⟨s, false, rfl, rfl, fun _ => rfl⟩

theorem decodesSafely_iff_sample :
    (ofCount 10).decodeAsPayload [0x2f, 0xc0] = some (⟨[0x2fc0000000000000#64], 10⟩, true) ∧
      (ofCount 10).DecodesSafely [0x2f, 0xc0] ∧ (ofCount 10).DecodesSafely [0x2f] ∧
      (ofCount 0).DecodesSafely [0x80] :=
  ⟨by decide, (decodesSafely_iff rfl [0x2f, 0xc0]).mpr (by decide),
    (decodesSafely_iff rfl [0x2f]).mpr (by decide), (decodesSafely_iff rfl [0x80]).mpr (by decide)⟩

/-- **An empty payload for a bitset without a length** has its last byte read. -/
theorem decodeAsPayload_empty :
    (ofCount 0).bitfield.length = wordsLength (ofCount 0).length ∧
      bytesLength (ofCount 0).length = ([] : List Byte).length ∧ ¬ (ofCount 0).DecodesSafely [] := by
  refine ⟨rfl, rfl, ?_⟩
  rintro ⟨s', accepted, hdecode, -⟩
  cases hdecode

end DynamicBitset

end TorrentEngine
