import Mathlib.Tactic.IntervalCases
import TorrentEngine.Library.SecureHash
import TorrentEngine.TorrentFile

/-! The `SHA1` class and `Hasher::get_sha1`. Bytes are taken one at a time into a block of 64 that starts
uninitialised, and `getDigest` pads by the same way. The digest is the standard one. -/

open PackedBits BlockHash SecureHash

namespace TorrentEngine

structure SHA1 where
  mDigest : Vector Word 5
  mBlock : Vector Byte 64
  mBlockByteIndex : Nat
  mByteCount : BitVec 64
  index_lt : mBlockByteIndex < 64

namespace SHA1

def leftRotate (value : Word) (count : Nat) : Word := (value <<< count) ^^^ (value >>> (32 - count))

/-- `reset`, on an object whose block holds anything. -/
def reset (mBlock : Vector Byte 64) : SHA1 :=
  ⟨#v[0x67452301#32, 0xEFCDAB89#32, 0x98BADCFE#32, 0x10325476#32, 0xC3D2E1F0#32], mBlock, 0, 0#64,
    by omega⟩

/-! ### A block -/

def widen (octet : Byte) : Word := octet.toBitVec.setWidth 32

/-- The array after `i` turns of the loop that reads the block. -/
def readWords (mBlock : Vector Byte 64) (w : Vector Word 80) : (i : Nat) → i ≤ 16 → Vector Word 80
  | 0, _ => w
  | i + 1, h =>
      (readWords mBlock w i (by omega)).set i
        (widen mBlock[i * 4 + 0] <<< 24 ||| widen mBlock[i * 4 + 1] <<< 16 |||
          widen mBlock[i * 4 + 2] <<< 8 ||| widen mBlock[i * 4 + 3])

/-- The array after `i` turns of the loop from 16 on. -/
def extendWords (w : Vector Word 80) : (i : Nat) → i ≤ 64 → Vector Word 80
  | 0, _ => w
  | i + 1, h =>
      let w := extendWords w i (by omega)
      w.set (16 + i) (leftRotate
        (w[16 + i - 3] ^^^ w[16 + i - 8] ^^^ w[16 + i - 14] ^^^ w[16 + i - 16]) 1)

/-- The body of the loop over the rounds. -/
def turn (w : Word) (i : Nat) (v : Working) : Working :=
  let fk : Word × Word :=
    if i < 20 then ((v.b &&& v.c) ||| (~~~v.b &&& v.d), 0x5A827999#32)
    else if i < 40 then (v.b ^^^ v.c ^^^ v.d, 0x6ED9EBA1#32)
    else if i < 60 then ((v.b &&& v.c) ||| (v.b &&& v.d) ||| (v.c &&& v.d), 0x8F1BBCDC#32)
    else (v.b ^^^ v.c ^^^ v.d, 0xCA62C1D6#32)
  let temp := leftRotate v.a 5 + fk.1 + v.e + fk.2 + w
  ⟨temp, v.a, leftRotate v.b 30, v.c, v.d⟩

/-- The locals after `i` rounds. -/
def turns (w : Vector Word 80) (v : Working) : (i : Nat) → i ≤ 80 → Working
  | 0, _ => v
  | i + 1, h => turn w[i] i (turns w v i (by omega))

def processBlock (mDigest : Vector Word 5) (mBlock : Vector Byte 64) : Vector Word 5 :=
  let w := extendWords (readWords mBlock (Vector.replicate 80 0#32) 16 (by omega)) 64 (by omega)
  let v := turns w ⟨mDigest[0], mDigest[1], mDigest[2], mDigest[3], mDigest[4]⟩ 80 (by omega)
  #v[mDigest[0] + v.a, mDigest[1] + v.b, mDigest[2] + v.c, mDigest[3] + v.d, mDigest[4] + v.e]

/-! ### Bytes -/

def processByte (s : SHA1) (octet : Byte) : SHA1 :=
  let mBlock := s.mBlock.set s.mBlockByteIndex octet s.index_lt
  if h : s.mBlockByteIndex + 1 = 64 then
    ⟨processBlock s.mDigest mBlock, mBlock, 0, s.mByteCount + 1, by omega⟩
  else ⟨s.mDigest, mBlock, s.mBlockByteIndex + 1, s.mByteCount + 1, by have := s.index_lt; omega⟩

def processBytes (s : SHA1) (data : List Byte) : SHA1 := data.foldl processByte s

theorem processByte_index (s : SHA1) (octet : Byte) :
    (s.processByte octet).mBlockByteIndex = (s.mBlockByteIndex + 1) % 64 := by
  have hlt := s.index_lt
  rw [processByte]
  split
  · rename_i h
    rw [h]
  · rename_i h
    have hnext : s.mBlockByteIndex + 1 < 64 := by omega
    exact (Nat.mod_eq_of_lt hnext).symm

/-- `while (m_blockByteIndex != 0)`. -/
def fillBlock (s : SHA1) : SHA1 :=
  if s.mBlockByteIndex ≠ 0 then fillBlock (s.processByte 0) else s
termination_by (64 - s.mBlockByteIndex) % 64
decreasing_by
  have hlt := s.index_lt
  rw [processByte_index]
  omega

/-- `while (m_blockByteIndex < 56)`. -/
def fillToLength (s : SHA1) : SHA1 :=
  if s.mBlockByteIndex < 56 then fillToLength (s.processByte 0) else s
termination_by 56 - s.mBlockByteIndex
decreasing_by
  rw [processByte_index]
  omega

/-- The low byte of a number, as `static_cast<unsigned char>(x & 0xFF)`. -/
def lowByte {w : Nat} (x : BitVec w) : Byte := UInt8.ofBitVec ((x &&& BitVec.ofNat w 0xFF).setWidth 8)

/-- The object after `getDigest`, whose `m_digest` is the digest. -/
def getDigest (s : SHA1) : SHA1 :=
  let bitCount := s.mByteCount * 8
  let s := s.processByte 0x80
  let s := if s.mBlockByteIndex > 56 then fillToLength (fillBlock s) else fillToLength s
  let s := s.processByte 0
  let s := s.processByte 0
  let s := s.processByte 0
  let s := s.processByte 0
  let s := s.processByte (lowByte (bitCount >>> 24))
  let s := s.processByte (lowByte (bitCount >>> 16))
  let s := s.processByte (lowByte (bitCount >>> 8))
  s.processByte (lowByte bitCount)

def getDigestBytes (s : SHA1) : Digest :=
  let d32 := (getDigest s).mDigest
  #v[lowByte (d32[0] >>> 24), lowByte (d32[0] >>> 16), lowByte (d32[0] >>> 8), lowByte d32[0],
    lowByte (d32[1] >>> 24), lowByte (d32[1] >>> 16), lowByte (d32[1] >>> 8), lowByte d32[1],
    lowByte (d32[2] >>> 24), lowByte (d32[2] >>> 16), lowByte (d32[2] >>> 8), lowByte d32[2],
    lowByte (d32[3] >>> 24), lowByte (d32[3] >>> 16), lowByte (d32[3] >>> 8), lowByte d32[3],
    lowByte (d32[4] >>> 24), lowByte (d32[4] >>> 16), lowByte (d32[4] >>> 8), lowByte d32[4]]

end SHA1

namespace SHA1

/-! ### A block is compressed as the standard says -/

theorem leftRotate_eq (value : Word) {count : Nat} (hcount : count < 32) :
    leftRotate value count = value.rotateLeft count := by
  rw [leftRotate, BitVec.rotateLeft_def, Nat.mod_eq_of_lt hcount]
  apply BitVec.eq_of_getLsbD_eq
  intro i hi
  rw [BitVec.getLsbD_xor, BitVec.getLsbD_or, BitVec.getLsbD_shiftLeft, BitVec.getLsbD_ushiftRight]
  by_cases hlt : i < count
  · rw [decide_eq_true hlt]
    simp
  · rw [BitVec.getLsbD_of_ge value (32 - count + i) (by omega), Bool.xor_false, Bool.or_false]

theorem or_eq_ch (x y z : Word) : (x &&& y) ||| (~~~x &&& z) = ch x y z := by
  rw [ch]
  ext i hi
  simp only [BitVec.getElem_or, BitVec.getElem_xor, BitVec.getElem_and, BitVec.getElem_not]
  cases x[i] <;> simp

theorem or_eq_maj (x y z : Word) : (x &&& y) ||| (x &&& z) ||| (y &&& z) = maj x y z := by
  rw [maj]
  ext i hi
  simp only [BitVec.getElem_or, BitVec.getElem_xor, BitVec.getElem_and]
  cases x[i] <;> cases y[i] <;> cases z[i] <;> rfl

theorem or_eq_append (b₀ b₁ b₂ b₃ : Byte) :
    (widen b₀ <<< 24 ||| widen b₁ <<< 16 ||| widen b₂ <<< 8 ||| widen b₃) =
      (b₀.toBitVec ++ b₁.toBitVec ++ b₂.toBitVec ++ b₃.toBitVec : BitVec (8 + 8 + 8 + 8)) := by
  apply BitVec.eq_of_getLsbD_eq
  intro i hi
  simp only [widen, BitVec.getLsbD_or, BitVec.getLsbD_shiftLeft, BitVec.getLsbD_setWidth,
    BitVec.getLsbD_append]
  interval_cases i <;> simp

theorem getD_mBlock (mBlock : Vector Byte 64) {i : Nat} (hi : i < 64) :
    mBlock.toList.getD i 0 = mBlock[i] := by
  rw [List.getD_eq_getElem _ _ (by rw [Vector.length_toList]; exact hi), Vector.getElem_toList]

theorem readWords_get (mBlock : Vector Byte 64) (w : Vector Word 80) {t : Nat} (ht : t < 80) :
    ∀ (i : Nat) (hi : i ≤ 16), t < i → (readWords mBlock w i hi)[t] = messageWord mBlock.toList t := by
  intro i
  induction i with
  | zero => omega
  | succ i ih =>
      intro hi hlt
      rw [readWords, Vector.getElem_set]
      split
      · rename_i heq
        subst heq
        rw [or_eq_append, messageWord, Nat.mul_comm 4, getD_mBlock mBlock (by omega),
          getD_mBlock mBlock (by omega), getD_mBlock mBlock (by omega), getD_mBlock mBlock (by omega)]
        rfl
      · exact ih (by omega) (by omega)

theorem extendWords_get {block : List Byte} {w : Vector Word 80}
    (hw : ∀ t (ht : t < 16), w[t] = messageWord block t) {t : Nat} (ht : t < 80) :
    ∀ (i : Nat) (hi : i ≤ 64), t < 16 + i → (extendWords w i hi)[t] = schedule block t := by
  intro i
  induction i generalizing t with
  | zero =>
      intro hi hlt
      rw [schedule, if_pos (by omega), ← hw t (by omega)]
      rfl
  | succ i ih =>
      intro hi hlt
      rw [extendWords, Vector.getElem_set]
      split
      · rename_i heq
        subst heq
        rw [schedule, if_neg (by omega), leftRotate_eq _ (by omega), ih (by omega) (by omega) (by omega),
          ih (by omega) (by omega) (by omega), ih (by omega) (by omega) (by omega),
          ih (by omega) (by omega) (by omega)]
      · exact ih ht (by omega) (by omega)

theorem turn_eq (w : Word) (i : Nat) (v : Working) : turn w i v = SecureHash.round i w v := by
  rw [turn, SecureHash.round, leftRotate_eq _ (by omega), leftRotate_eq _ (by omega), or_eq_ch, or_eq_maj,
    roundFunction, roundConstant]
  by_cases h₁ : i < 20
  · simp only [if_pos h₁]
  · by_cases h₂ : i < 40
    · simp only [if_neg h₁, if_pos h₂, parity]
    · by_cases h₃ : i < 60
      · simp only [if_neg h₁, if_neg h₂, if_pos h₃]
      · simp only [if_neg h₁, if_neg h₂, if_neg h₃, parity]

theorem turns_eq {w : Vector Word 80} {block : List Byte} (hw : ∀ t (ht : t < 80), w[t] = schedule block t)
    (v : Working) : ∀ (i : Nat) (hi : i ≤ 80), turns w v i hi = rounds (schedule block) v i := by
  intro i
  induction i with
  | zero => exact fun _ => rfl
  | succ i ih =>
      intro hi
      rw [turns, rounds, turn_eq, ih, hw]

theorem processBlock_eq (mDigest : Vector Word 5) (mBlock : Vector Byte 64) :
    processBlock mDigest mBlock = compress mDigest mBlock.toList := by
  have hread : ∀ t (ht : t < 16),
      (readWords mBlock (Vector.replicate 80 0#32) 16 (Nat.le_refl 16))[t] =
        messageWord mBlock.toList t := by
    intro t ht
    exact readWords_get mBlock _ (by omega) 16 (Nat.le_refl 16) ht
  have hwords : ∀ t (ht : t < 80),
      (extendWords (readWords mBlock (Vector.replicate 80 0#32) 16 (Nat.le_refl 16)) 64
        (Nat.le_refl 64))[t] = schedule mBlock.toList t := by
    intro t ht
    exact extendWords_get hread ht 64 (Nat.le_refl 64) (by omega)
  exact congrArg (added mDigest) (turns_eq hwords _ 80 (Nat.le_refl 80))

/-! ### The object is a stream -/

abbrev step : Absorbing (Vector Word 5) Byte → Byte → Absorbing (Vector Word 5) Byte := push 64 compress

/-- The digest so far and the bytes of the block that are set. -/
def stream (s : SHA1) : Absorbing (Vector Word 5) Byte :=
  ⟨s.mDigest, s.mBlock.toList.take s.mBlockByteIndex⟩

theorem length_pending (s : SHA1) : s.stream.pending.length = s.mBlockByteIndex := by
  have hlt := s.index_lt
  rw [stream, List.length_take, Vector.length_toList]
  omega

theorem take_set (mBlock : Vector Byte 64) {i : Nat} (hi : i < 64) (octet : Byte) :
    (mBlock.set i octet hi).toList.take (i + 1) = mBlock.toList.take i ++ [octet] := by
  have hlength : i < (mBlock.toList.set i octet).length := by
    rw [List.length_set, Vector.length_toList]
    exact hi
  rw [Vector.toList_set, List.take_succ_eq_append_getElem hlength, List.getElem_set_self,
    List.take_set_of_le (Nat.le_refl i)]

theorem processByte_stream (s : SHA1) (octet : Byte) :
    (s.processByte octet).stream = step s.stream octet := by
  have hset := take_set s.mBlock s.index_lt octet
  rw [step, push, length_pending, processByte]
  split
  · rename_i hfull
    have hwhole : (s.mBlock.set s.mBlockByteIndex octet s.index_lt).toList =
        s.mBlock.toList.take s.mBlockByteIndex ++ [octet] := by
      rw [← hset, hfull, List.take_of_length_le (by rw [Vector.length_toList])]
    rw [stream, stream, processBlock_eq, List.take_zero, hwhole]
  · rw [stream, stream, hset]

theorem foldl_stream (s : SHA1) (data : List Byte) :
    (data.foldl processByte s).stream = data.foldl step s.stream := by
  induction data generalizing s with
  | nil => rfl
  | cons octet data ih => rw [List.foldl_cons, ih, processByte_stream, List.foldl_cons]

theorem processByte_count (s : SHA1) (octet : Byte) :
    (s.processByte octet).mByteCount = s.mByteCount + 1 := by
  rw [processByte]
  split <;> rfl

theorem foldl_count (s : SHA1) (data : List Byte) :
    (data.foldl processByte s).mByteCount = s.mByteCount + BitVec.ofNat 64 data.length := by
  induction data generalizing s with
  | nil => exact (BitVec.add_zero _).symm
  | cons octet data ih =>
      rw [List.foldl_cons, ih, processByte_count, List.length_cons, BitVec.ofNat_add, BitVec.add_assoc]
      exact congrArg (s.mByteCount + ·) (BitVec.add_comm _ _)

/-! ### The padding -/

theorem foldl_index (s : SHA1) (data : List Byte) :
    (data.foldl processByte s).mBlockByteIndex = (s.mBlockByteIndex + data.length) % 64 := by
  induction data generalizing s with
  | nil => exact (Nat.mod_eq_of_lt s.index_lt).symm
  | cons octet data ih =>
      rw [List.foldl_cons, ih, processByte_index, List.length_cons, Nat.mod_add_mod, Nat.add_assoc,
        Nat.add_comm 1]

theorem fillBlock_eq (s : SHA1) :
    fillBlock s = (List.replicate ((64 - s.mBlockByteIndex) % 64) 0).foldl processByte s := by
  fun_induction fillBlock s with
  | case1 s hne ih =>
      have hlt := s.index_lt
      have hcount : (64 - s.mBlockByteIndex) % 64 = (64 - (s.mBlockByteIndex + 1) % 64) % 64 + 1 := by
        omega
      rw [ih, processByte_index, hcount, List.replicate_succ, List.foldl_cons]
  | case2 s hzero =>
      have hcount : (64 - s.mBlockByteIndex) % 64 = 0 := by omega
      rw [hcount]
      rfl

theorem fillToLength_eq (s : SHA1) :
    fillToLength s = (List.replicate (56 - s.mBlockByteIndex) 0).foldl processByte s := by
  fun_induction fillToLength s with
  | case1 s hlt ih =>
      have hcount : 56 - s.mBlockByteIndex = 56 - (s.mBlockByteIndex + 1) % 64 + 1 := by omega
      rw [ih, processByte_index, hcount, List.replicate_succ, List.foldl_cons]
  | case2 s hge =>
      rw [Nat.sub_eq_zero_of_le (by omega)]
      rfl

/-- The zero bytes of `getDigest`, one loop or both. -/
theorem fill_eq (s : SHA1) (octet : Byte) :
    (let s := s.processByte octet
      if s.mBlockByteIndex > 56 then fillToLength (fillBlock s) else fillToLength s) =
      (List.replicate (zeros s.mBlockByteIndex) 0).foldl processByte (s.processByte octet) := by
  have hlt := s.index_lt
  have hindex := processByte_index s octet
  dsimp only
  split
  · rw [fillToLength_eq, fillBlock_eq, ← List.foldl_append, foldl_index, List.length_replicate,
      List.replicate_append_replicate, zeros]
    congr 2
    omega
  · rw [fillToLength_eq, zeros]
    congr 2
    omega

theorem lowByte_eq {w : Nat} (hw : 8 ≤ w) (x : BitVec w) : lowByte x = UInt8.ofBitVec (x.setWidth 8) := by
  rw [lowByte]
  congr 1
  ext i hi
  have hmask : (BitVec.ofNat w 0xFF).getLsbD i = true := by
    rw [BitVec.getLsbD_ofNat, show 0xFF = 2 ^ 8 - 1 from rfl, Nat.testBit_two_pow_sub_one,
      decide_eq_true hi, decide_eq_true (hi.trans_le hw), Bool.and_true]
  rw [BitVec.getElem_setWidth, BitVec.getElem_setWidth, BitVec.getLsbD_and, hmask, Bool.and_true]

theorem map_pieces (x : Word) : (pieces 8 x).map UInt8.ofBitVec =
    [lowByte (x >>> 24), lowByte (x >>> 16), lowByte (x >>> 8), lowByte x] := by
  rw [lowByte_eq (by omega), lowByte_eq (by omega), lowByte_eq (by omega), lowByte_eq (by omega)]
  rfl

theorem lowByte_shift (x : BitVec 64) {k : Nat} (hk : k ≤ 24) :
    lowByte (x >>> k) = lowByte (x.setWidth 32 >>> k) := by
  rw [lowByte_eq (by omega), lowByte_eq (by omega)]
  congr 1
  ext i hi
  rw [BitVec.getElem_setWidth, BitVec.getElem_setWidth, BitVec.getLsbD_ushiftRight,
    BitVec.getLsbD_ushiftRight, BitVec.getLsbD_setWidth, decide_eq_true (by omega), Bool.true_and]

/-- What `getDigest` appends: of the length in bits it writes the low 32 bits, after four zero bytes. -/
def digestPadding (length : Nat) : List Byte :=
  0x80 :: List.replicate (zeros length) 0 ++ [0, 0, 0, 0] ++
    (pieces 8 (BitVec.ofNat 32 (8 * length))).map UInt8.ofBitVec

theorem getDigest_eq {s : SHA1} {length : Nat} (hindex : s.mBlockByteIndex = length % 64)
    (hcount : s.mByteCount = BitVec.ofNat 64 length) :
    getDigest s = (digestPadding length).foldl processByte s := by
  have hbits : (s.mByteCount * 8).setWidth 32 = BitVec.ofNat 32 (8 * length) := by
    rw [hcount]
    apply BitVec.eq_of_toNat_eq
    rw [BitVec.toNat_setWidth, BitVec.toNat_mul, BitVec.toNat_ofNat, BitVec.toNat_ofNat,
      show (8 : BitVec 64).toNat = 8 from rfl]
    omega
  have hzeros : zeros s.mBlockByteIndex = zeros length := by rw [hindex, zeros, zeros, Nat.mod_mod]
  have hfill := fill_eq s 0x80
  have hlast := lowByte_shift (s.mByteCount * 8) (Nat.zero_le 24)
  rw [BitVec.ushiftRight_zero, BitVec.ushiftRight_zero] at hlast
  dsimp only at hfill
  rw [hzeros] at hfill
  rw [getDigest, hfill, hlast, lowByte_shift _ (by omega), lowByte_shift _ (by omega),
    lowByte_shift _ (by omega), hbits, digestPadding, map_pieces]
  simp only [List.foldl_append, List.foldl_cons, List.foldl_nil]

/-! ### The digest is the standard one -/

theorem stream_reset (mBlock : Vector Byte 64) : (reset mBlock).stream = ⟨initial, []⟩ := rfl

theorem processBytes_append (s : SHA1) (data rest : List Byte) :
    (s.processBytes data).processBytes rest = s.processBytes (data ++ rest) := by
  rw [processBytes, processBytes, processBytes, List.foldl_append]

theorem processBytes_flatten (s : SHA1) (chunks : List (List Byte)) :
    chunks.foldl processBytes s = s.processBytes chunks.flatten := by
  induction chunks generalizing s with
  | nil => rfl
  | cons data chunks ih => rw [List.foldl_cons, ih, processBytes_append, List.flatten_cons]

theorem getDigest_chain (mBlock : Vector Byte 64) (data : List Byte) :
    (getDigest ((reset mBlock).processBytes data)).mDigest =
      chaining (data ++ digestPadding data.length) := by
  have hindex : ((reset mBlock).processBytes data).mBlockByteIndex = data.length % 64 := by
    rw [processBytes, foldl_index, reset, Nat.zero_add]
  have hcount : ((reset mBlock).processBytes data).mByteCount = BitVec.ofNat 64 data.length := by
    rw [processBytes, foldl_count, reset, BitVec.zero_add]
  have hstream := foldl_stream (reset mBlock) (data ++ digestPadding data.length)
  rw [stream_reset, foldl_push (by omega), List.foldl_append] at hstream
  rw [getDigest_eq hindex hcount, processBytes, chaining]
  exact congrArg Absorbing.chain hstream

theorem toList_five {α : Type} (v : Vector α 5) : v.toList = [v[0], v[1], v[2], v[3], v[4]] := by
  apply List.ext_getElem
  · rw [Vector.length_toList]
    rfl
  · intro i hi hi'
    rw [Vector.length_toList] at hi
    rw [Vector.getElem_toList]
    interval_cases i <;> rfl

theorem toList_getDigestBytes (s : SHA1) : s.getDigestBytes.toList = output (getDigest s).mDigest := by
  rw [output, toList_five]
  simp only [List.flatMap_cons, List.flatMap_nil, List.map_append, map_pieces, List.map_nil]
  rfl

theorem digestPadding_eq_iff {length : Nat} (h : length < 2 ^ 61) :
    digestPadding length = padding length ↔ length < 2 ^ 29 := by
  have hzero : ([0, 0, 0, 0] : List Byte) = (pieces 8 (BitVec.ofNat 32 0)).map UInt8.ofBitVec := rfl
  have hpieces : pieces 8 (BitVec.ofNat 64 (8 * length)) =
      pieces 8 (BitVec.ofNat 32 (8 * length / 2 ^ 32)) ++ pieces 8 (BitVec.ofNat 32 (8 * length)) := by
    rw [← pieces_append (by decide) (by decide)]
    exact congrArg (pieces 8) (ofNat_append 32 32 (8 * length))
  rw [digestPadding, padding, hpieces, List.map_append, List.append_assoc, List.append_cancel_left_eq,
    List.append_cancel_right_eq, hzero]
  constructor
  · intro h
    have hinj : Function.Injective UInt8.ofBitVec := fun _ _ => congrArg UInt8.toBitVec
    have hlow := congrArg BitVec.toNat (pieces_injective (by decide) (List.map_injective_iff.mpr hinj h))
    rw [BitVec.toNat_ofNat, BitVec.toNat_ofNat] at hlow
    omega
  · intro hlt
    rw [Nat.div_eq_of_lt (by omega)]

end SHA1

/-- `Hasher::get_sha1`, with what the block holds before the first byte. -/
def Hasher.getSha1 (mBlock : Vector Byte 64) (data : List Byte) : Digest :=
  ((SHA1.reset mBlock).processBytes data).getDigestBytes

namespace SHA1

theorem getSha1_standard (mBlock : Vector Byte 64) {data : List Byte} (h : data.length < 2 ^ 29) :
    (Hasher.getSha1 mBlock data).toList = sha1 data := by
  rw [Hasher.getSha1, toList_getDigestBytes, getDigest_chain,
    (digestPadding_eq_iff (h.trans (by omega))).mpr h, sha1]

/-- **However a message is cut into pieces, and whatever lies in the block at first, the digest is the
standard one**, for a message of fewer than 2²⁹ bytes. -/
theorem digest_standard (mBlock : Vector Byte 64) (chunks : List (List Byte))
    (h : chunks.flatten.length < 2 ^ 29) :
    (chunks.foldl processBytes (reset mBlock)).getDigestBytes.toList = sha1 chunks.flatten := by
  rw [processBytes_flatten]
  exact getSha1_standard mBlock h

theorem digest_standard_twoChunks :
    ([[0x61], [0x62, 0x63]].foldl processBytes (reset (Vector.replicate 64 0xAA))).getDigestBytes.toList =
      sha1 [0x61, 0x62, 0x63] :=
  digest_standard (Vector.replicate 64 0xAA) [[0x61], [0x62, 0x63]] (by decide)

/-- **What is hashed is the message and a padding that is the standard's exactly below 2²⁹ bytes**: from
there on the length written is the length in bits modulo 2³². -/
theorem getSha1_padding (mBlock : Vector Byte 64) {data : List Byte} (h : data.length < 2 ^ 61) :
    (Hasher.getSha1 mBlock data).toList = output (chaining (data ++ digestPadding data.length)) ∧
      (data ++ digestPadding data.length = data ++ padding data.length ↔ data.length < 2 ^ 29) := by
  constructor
  · rw [Hasher.getSha1, toList_getDigestBytes, getDigest_chain]
  · rw [List.append_cancel_left_eq, digestPadding_eq_iff h]

/-- Of 2²⁹ zero bytes the standard hashes another padding. -/
theorem getSha1_padding_wrapped :
    (Hasher.getSha1 (Vector.replicate 64 0xAA) (List.replicate (2 ^ 29) 0)).toList =
        output (chaining (List.replicate (2 ^ 29) 0 ++ digestPadding (2 ^ 29))) ∧
      List.replicate (2 ^ 29) 0 ++ digestPadding (2 ^ 29) ≠ List.replicate (2 ^ 29) 0 ++ padding (2 ^ 29) := by
  have hlength : (List.replicate (2 ^ 29) (0 : Byte)).length = 2 ^ 29 := List.length_replicate
  obtain ⟨hdigest, hpadding⟩ := getSha1_padding (Vector.replicate 64 0xAA) (hlength.trans_lt (by decide))
  rw [hlength] at hdigest hpadding
  exact ⟨hdigest, fun heq => lt_irrefl _ (hpadding.mp heq)⟩

end SHA1

end TorrentEngine
