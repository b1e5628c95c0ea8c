import Mathlib.Data.Finset.Card
import Mathlib.Data.Finset.Range
import TorrentEngine.Bytes
import TorrentEngine.Library.PackedBits

/-! `DynamicBitset`: a vector of words of 64 bits, the most significant bit of a word first. After any
operations it stands for the set of indices that these describe, and the observers tell that set. -/

open PackedBits

namespace TorrentEngine

def wordsLength (bitLength : Nat) : Nat := bitLength / 64 + if bitLength &&& 63 ≠ 0 then 1 else 0

def bytesLength (bitLength : Nat) : Nat := bitLength / 8 + if bitLength &&& 7 ≠ 0 then 1 else 0

abbrev UINT64_MAX : BitVec 64 := BitVec.allOnes 64

structure DynamicBitset where
  bitfield : List (BitVec 64)
  length : Nat
  deriving DecidableEq

structure BitfieldIndex where
  wordIndex : Nat
  index : Nat

namespace DynamicBitset

/-! ### The class -/

def getIndex (index : Nat) : BitfieldIndex := ⟨index / 64, 63 - (index &&& 63)⟩

/-- The constructor from a length. -/
def ofCount (count : Nat) : DynamicBitset := ⟨List.replicate (wordsLength count) 0, count⟩

/-- The loop of `decode_as_payload`. There is nothing to say when it leaves the words. -/
def decodeLoop : List Byte → List (BitVec 64) → Nat → Nat → Option (List (BitVec 64))
  | [], bitfield, _, _ => some bitfield
  | byte :: bytesView, bitfield, wordOffset, byteOffset =>
      match bitfield[wordOffset]? with
      | none => none
      | some word =>
          let bitfield :=
            bitfield.set wordOffset (word ||| byte.toBitVec.setWidth 64 <<< (8 * byteOffset))
          if byteOffset = 0 then decodeLoop bytesView bitfield (wordOffset + 1) 7
          else decodeLoop bytesView bitfield wordOffset (byteOffset - 1)

section

variable (s : DynamicBitset)

/-- `bitfield[i]`. -/
def word (i : Nat) : BitVec 64 := s.bitfield.getD i 0

/-- The bitset afterwards, and whether the payload was accepted. Nor is there when the view is empty whose
`back` is read. -/
def decodeAsPayload (bytesView : List Byte) : Option (DynamicBitset × Bool) :=
  if bytesView.length ≠ bytesLength s.length then some (s, false)
  else
    match bytesView.getLast? with
    | none => none
    | some endByte =>
        let remains := s.length &&& 7
        if remains ≠ 0 ∧ endByte.toNat &&& (255 >>> remains) ≠ 0 then some (s, false)
        else (decodeLoop bytesView s.bitfield 0 7).map fun bitfield => ({ s with bitfield }, true)

/-- `operator |=`, whose operand is asserted to be of the same length. -/
def orAssign (other : DynamicBitset) : DynamicBitset :=
  { s with bitfield := List.zipWith (· ||| ·) s.bitfield other.bitfield }

/-- `operator &=`. -/
def andAssign (other : DynamicBitset) : DynamicBitset :=
  { s with bitfield := List.zipWith (· &&& ·) s.bitfield other.bitfield }

/-- The sum is at most the length, and does not wrap. -/
def count : Nat := (s.bitfield.map fun word => word.cpop.toNat).sum

def any : Bool := s.bitfield.any (· != 0)

/-- `countl_one` counts what `countl_zero` counts of the complement. -/
def all : Bool :=
  if s.length = 0 then true
  else if s.bitfield.dropLast.any (· != UINT64_MAX) then false
  else if s.length &&& 63 ≠ 0 then (~~~s.bitfield.getLastD 0).clz.toNat == s.length &&& 63
  else s.bitfield.getLastD 0 == UINT64_MAX

def none : Bool := !s.any

def test (index : Nat) : Bool :=
  if s.length ≤ index then false
  else
    let bit := getIndex index
    s.word bit.wordIndex &&& (1#64 <<< bit.index) != 0

def set (index : Nat) : DynamicBitset :=
  if s.length ≤ index then s
  else
    let bit := getIndex index
    { s with
      bitfield := s.bitfield.set bit.wordIndex (s.word bit.wordIndex ||| (1#64 <<< bit.index)) }

def reset (index : Nat) : DynamicBitset :=
  if s.length ≤ index then s
  else
    let bit := getIndex index
    { s with
      bitfield := s.bitfield.set bit.wordIndex (s.word bit.wordIndex &&& ~~~(1#64 <<< bit.index)) }

/-- `std::fill`. -/
def clear : DynamicBitset := { s with bitfield := s.bitfield.map fun _ => 0 }

def size : Nat := s.length

end

/-! ### What a bitset stands for -/

/-- Bit `7 - i % 8` of byte `i / 8`. -/
def payloadBit (bytes : List Byte) (i : Nat) : Bool := (bytes.getD (i / 8) 0).toNat.testBit (7 - i % 8)

/-- As many bytes as a set of this length has, with the unused low bits of the last one zero. -/
def Fits (n : Nat) (bytes : List Byte) : Prop :=
  bytes.length = bytesLength n ∧ ∀ k < 8 * bytes.length, n ≤ k → payloadBit bytes k = false

instance (n : Nat) (bytes : List Byte) : Decidable (Fits n bytes) :=
  inferInstanceAs (Decidable (_ ∧ _))

/-- The indices whose bits are set in a payload. -/
def payload (n : Nat) (bytes : List Byte) : Finset Nat := {k ∈ Finset.range n | payloadBit bytes k}

/-- The bitsets of this length after some operations, with the indices that the operations describe. -/
inductive Built (n : Nat) : DynamicBitset → Finset Nat → Prop
  | ofCount : Built n (ofCount n) ∅
  | set {s : DynamicBitset} {A : Finset Nat} (i : Nat) :
      Built n s A → Built n (s.set i) (if i < n then insert i A else A)
  | reset {s : DynamicBitset} {A : Finset Nat} (i : Nat) :
      Built n s A → Built n (s.reset i) (if i < n then A.erase i else A)
  | clear {s : DynamicBitset} {A : Finset Nat} : Built n s A → Built n s.clear ∅
  | orAssign {s t : DynamicBitset} {A B : Finset Nat} :
      Built n s A → Built n t B → Built n (s.orAssign t) (A ∪ B)
  | andAssign {s t : DynamicBitset} {A B : Finset Nat} :
      Built n s A → Built n t B → Built n (s.andAssign t) (A ∩ B)
  | decodeAsPayload {s s' : DynamicBitset} {A : Finset Nat} {accepted : Bool} (bytes : List Byte) :
      0 < n → Built n s A → s.decodeAsPayload bytes = some (s', accepted) →
        Built n s' (if Fits n bytes then A ∪ payload n bytes else A)

/-- The words hold the indices of the set and no others. -/
structure Represents (s : DynamicBitset) (n : Nat) (A : Finset Nat) : Prop where
  length : s.length = n
  words : s.bitfield.length = wordsLength n
  bits : ∀ k, bit s.bitfield k = true ↔ k ∈ A
  below : ∀ k ∈ A, k < n

variable {n i k : Nat} {s t : DynamicBitset} {A B : Finset Nat} {bytes : List Byte}

theorem and_63 (n : Nat) : n &&& 63 = n % 64 := Nat.and_two_pow_sub_one_eq_mod n 6

theorem and_7 (n : Nat) : n &&& 7 = n % 8 := Nat.and_two_pow_sub_one_eq_mod n 3

theorem wordsLength_bounds (n : Nat) : n ≤ 64 * wordsLength n ∧ 64 * wordsLength n < n + 64 := by
  rw [wordsLength, and_63]
  split <;> omega

theorem bytesLength_bounds (n : Nat) : n ≤ 8 * bytesLength n ∧ 8 * bytesLength n < n + 8 := by
  rw [bytesLength, and_7]
  split <;> omega

theorem bytesLength_le (n : Nat) : 8 * bytesLength n ≤ 64 * wordsLength n := by
  have hwords := wordsLength_bounds n
  have hbytes := bytesLength_bounds n
  omega

theorem getIndex_eq (i : Nat) : getIndex i = ⟨i / 64, 64 - 1 - i % 64⟩ := by
  rw [getIndex, and_63]

theorem payloadBit_eq (bytes : List Byte) (i : Nat) :
    payloadBit bytes i = bit (bytes.map UInt8.toBitVec) i := by
  have hj : i % 8 < 8 := Nat.mod_lt i (by decide)
  rw [payloadBit, bit, List.getD_map, BitVec.getMsbD_eq_getLsbD, decide_eq_true hj, Bool.true_and]
  rfl

namespace Represents

/-! ### Each operation -/

theorem ofCount (n : Nat) : Represents (ofCount n) n ∅ := by
  refine ⟨rfl, List.length_replicate, fun k => ?_, fun k hk => absurd hk (Finset.notMem_empty k)⟩
  rw [DynamicBitset.ofCount]
  exact iff_of_false (Bool.eq_false_iff.mp bit_replicate_zero) (Finset.notMem_empty k)

theorem lt_length (h : Represents s n A) (hi : i < n) : i / 64 < s.bitfield.length := by
  have hwords := (wordsLength_bounds n).1
  rw [h.words]
  omega

theorem not_le (h : Represents s n A) (hi : i < n) : ¬ s.length ≤ i := by
  rw [h.length]
  exact Nat.not_le.mpr hi

/-- The bits of a word are the indices it holds. -/
theorem word_iff (h : Represents s n A) (i : Nat) : (s.word (i / 64)).getMsbD (i % 64) = true ↔ i ∈ A :=
  h.bits i

/-- A word is replaced by one that differs at one index. -/
theorem update (h : Represents s n A) (hi : i < n) {x : BitVec 64}
    (hx : ∀ k, k / 64 = i / 64 → (x.getMsbD (k % 64) = true ↔ k ∈ B)) (hoff : ∀ k, k ≠ i → (k ∈ B ↔ k ∈ A)) :
    Represents { s with bitfield := s.bitfield.set (i / 64) x } n B := by
  refine ⟨h.length, List.length_set.trans h.words, fun k => ?_, fun k hk => ?_⟩
  · rw [bit_set (h.lt_length hi)]
    split
    · rename_i hword
      exact hx k hword
    · rename_i hword
      rw [h.bits]
      exact (hoff k fun hki => hword (congrArg (· / 64) hki)).symm
  · by_cases hki : k = i
    · subst hki
      exact hi
    · exact h.below k ((hoff k hki).mp hk)

theorem set (h : Represents s n A) (i : Nat) :
    Represents (s.set i) n (if i < n then insert i A else A) := by
  rw [DynamicBitset.set]
  by_cases hi : i < n
  · rw [if_neg (h.not_le hi), if_pos hi, getIndex_eq]
    refine h.update hi (fun k hk => ?_) fun k hk => ?_
    · have hmask : k % 64 = i % 64 ↔ k = i := by omega
      rw [BitVec.getMsbD_or, getMsbD_mask (Nat.mod_lt i (by decide)), Bool.or_eq_true, decide_eq_true_iff,
        hmask, Finset.mem_insert, or_comm, ← hk, h.word_iff]
    · rw [Finset.mem_insert, or_iff_right hk]
  · rw [if_pos (h.length.trans_le (Nat.le_of_not_lt hi)), if_neg hi]
    exact h

theorem reset (h : Represents s n A) (i : Nat) :
    Represents (s.reset i) n (if i < n then A.erase i else A) := by
  rw [DynamicBitset.reset]
  by_cases hi : i < n
  · rw [if_neg (h.not_le hi), if_pos hi, getIndex_eq]
    refine h.update hi (fun k hk => ?_) fun k hk => ?_
    · have hmask : k % 64 = i % 64 ↔ k = i := by omega
      rw [BitVec.getMsbD_and, BitVec.getMsbD_not, getMsbD_mask (Nat.mod_lt i (by decide)),
        decide_eq_true (Nat.mod_lt k (by decide)), Bool.true_and, Bool.and_eq_true, Bool.not_eq_true',
        decide_eq_false_iff_not, hmask, Finset.mem_erase, and_comm, ← hk, h.word_iff]
    · rw [Finset.mem_erase, and_iff_right hk]
  · rw [if_pos (h.length.trans_le (Nat.le_of_not_lt hi)), if_neg hi]
    exact h

theorem clear (h : Represents s n A) : Represents s.clear n ∅ := by
  refine ⟨h.length, (List.length_map _).trans h.words, fun k => ?_, fun k hk =>
    absurd hk (Finset.notMem_empty k)⟩
  rw [DynamicBitset.clear, List.map_const']
  exact iff_of_false (Bool.eq_false_iff.mp bit_replicate_zero) (Finset.notMem_empty k)

theorem orAssign (h : Represents s n A) (h' : Represents t n B) :
    Represents (s.orAssign t) n (A ∪ B) := by
  have hlength := h.words.trans h'.words.symm
  refine ⟨h.length, ?_, fun k => ?_, fun k hk => ?_⟩
  · rw [DynamicBitset.orAssign, List.length_zipWith, hlength, Nat.min_self, h'.words]
  · rw [DynamicBitset.orAssign, bit_or hlength, Bool.or_eq_true, h.bits, h'.bits, Finset.mem_union]
  · exact (Finset.mem_union.mp hk).elim (h.below k) (h'.below k)

theorem andAssign (h : Represents s n A) (h' : Represents t n B) :
    Represents (s.andAssign t) n (A ∩ B) := by
  have hlength := h.words.trans h'.words.symm
  refine ⟨h.length, ?_, fun k => ?_, fun k hk => ?_⟩
  · rw [DynamicBitset.andAssign, List.length_zipWith, hlength, Nat.min_self, h'.words]
  · rw [DynamicBitset.andAssign, bit_and hlength, Bool.and_eq_true, h.bits, h'.bits, Finset.mem_inter]
  · exact h.below k (Finset.mem_inter.mp hk).1

end Represents

/-! ### Decoding a payload -/

/-- A byte goes to its place in its word. -/
theorem getMsbD_byte (byte : Byte) (b : Nat) (hk : k < 64) :
    (byte.toBitVec.setWidth 64 <<< (8 * (7 - b % 8))).getMsbD k =
      (decide (8 * (b % 8) ≤ k ∧ k < 8 * (b % 8) + 8) && byte.toBitVec.getMsbD (k - 8 * (b % 8))) := by
  have hb : b % 8 < 8 := Nat.mod_lt b (by decide)
  have hshift : 8 * (7 - b % 8) = 64 - (8 * (b % 8) + 8) := by omega
  rw [hshift]
  exact getMsbD_placed byte.toBitVec (by omega) hk

theorem bit_set_byte (bitfield : List (BitVec 64)) (byte : Byte) {b : Nat} {word : BitVec 64}
    (hword : bitfield[b / 8]? = some word) :
    bit (bitfield.set (b / 8) (word ||| byte.toBitVec.setWidth 64 <<< (8 * (7 - b % 8)))) k =
      (bit bitfield k || (decide (8 * b ≤ k ∧ k < 8 * b + 8) && byte.toBitVec.getMsbD (k - 8 * b))) := by
  obtain ⟨hlength, hget⟩ := List.getElem?_eq_some_iff.mp hword
  rw [bit_set hlength]
  split
  · rename_i hk
    have hbit : bit bitfield k = word.getMsbD (k % 64) := by
      rw [bit, hk, List.getD_eq_getElem _ _ hlength, hget]
    have hindex : k - 8 * b = k % 64 - 8 * (b % 8) := by omega
    have hplace : (8 * b ≤ k ∧ k < 8 * b + 8) ↔ 8 * (b % 8) ≤ k % 64 ∧ k % 64 < 8 * (b % 8) + 8 := by
      omega
    rw [BitVec.getMsbD_or, getMsbD_byte byte b (Nat.mod_lt k (by decide)), hbit, hindex,
      decide_eq_decide.mpr hplace]
  · rename_i hk
    rw [decide_eq_false (show ¬ (8 * b ≤ k ∧ k < 8 * b + 8) by omega), Bool.false_and, Bool.or_false]

/-- **The loop adds the bits of the payload**, from the byte that it is at on, and stays in the words. -/
theorem decodeLoop_eq (bytes : List Byte) (bitfield : List (BitVec 64)) (b : Nat)
    (hroom : 8 * (b + bytes.length) ≤ 64 * bitfield.length) :
    ∃ bitfield', decodeLoop bytes bitfield (b / 8) (7 - b % 8) = some bitfield' ∧
      bitfield'.length = bitfield.length ∧
      ∀ k, bit bitfield' k =
        (bit bitfield k || (decide (8 * b ≤ k) && bit (bytes.map UInt8.toBitVec) (k - 8 * b))) := by
  induction bytes generalizing bitfield b with
  | nil =>
      refine ⟨bitfield, rfl, rfl, fun k => ?_⟩
      rw [List.map_nil, bit_nil, Bool.and_false, Bool.or_false]
  | cons byte bytes ih =>
      rw [List.length_cons] at hroom
      have hlength : b / 8 < bitfield.length := by omega
      obtain ⟨word, hword⟩ : ∃ word, bitfield[b / 8]? = some word :=
        ⟨_, List.getElem?_eq_getElem hlength⟩
      obtain ⟨bitfield', hloop, hlength', hbits⟩ :=
        ih (bitfield.set (b / 8) (word ||| byte.toBitVec.setWidth 64 <<< (8 * (7 - b % 8)))) (b + 1)
          (by rw [List.length_set]; omega)
      refine ⟨bitfield', ?_, hlength'.trans List.length_set, fun k => ?_⟩
      · rw [decodeLoop, hword]
        simp only
        split
        · rename_i hlast
          rw [← hloop, show (b + 1) / 8 = b / 8 + 1 by omega, show 7 - (b + 1) % 8 = 7 by omega]
        · rename_i hlast
          rw [← hloop, show (b + 1) / 8 = b / 8 by omega, show 7 - (b + 1) % 8 = 7 - b % 8 - 1 by omega]
      · rw [hbits, bit_set_byte bitfield byte hword, List.map_cons, bit_cons, Bool.or_assoc]
        congr 1
        by_cases hbelow : 8 * b ≤ k
        · by_cases hfirst : k < 8 * b + 8
          · rw [decide_eq_true (And.intro hbelow hfirst), decide_eq_true hbelow,
              decide_eq_false (show ¬ 8 * (b + 1) ≤ k by omega), if_pos (show k - 8 * b < 8 by omega),
              Bool.false_and, Bool.or_false]
          · rw [decide_eq_false fun h => hfirst h.2, decide_eq_true hbelow,
              decide_eq_true (show 8 * (b + 1) ≤ k by omega), if_neg (show ¬ k - 8 * b < 8 by omega),
              Bool.false_and, Bool.false_or, show k - 8 * (b + 1) = k - 8 * b - 8 by omega]
        · rw [decide_eq_false fun h => hbelow h.1, decide_eq_false hbelow,
            decide_eq_false (show ¬ 8 * (b + 1) ≤ k by omega), Bool.false_and, Bool.false_and,
            Bool.false_or, Bool.false_and]

/-- The bits that the check of the last byte looks at. -/
theorem unused_eq_zero (endByte : Byte) {remains : Nat} (h : remains < 8) :
    endByte.toNat &&& (255 >>> remains) = 0 ↔ ∀ j < 8 - remains, endByte.toNat.testBit j = false := by
  have hmasks : ∀ r < 8, 255 >>> r = 2 ^ (8 - r) - 1 := by decide
  rw [hmasks remains h, Nat.and_two_pow_sub_one_eq_mod]
  constructor
  · intro hzero j hj
    have hbit := Nat.testBit_mod_two_pow endByte.toNat (8 - remains) j
    rw [hzero, Nat.zero_testBit, decide_eq_true hj, Bool.true_and] at hbit
    exact hbit.symm
  · intro hzero
    refine Nat.eq_of_testBit_eq fun j => ?_
    rw [Nat.testBit_mod_two_pow, Nat.zero_testBit]
    by_cases hj : j < 8 - remains
    · rw [hzero j hj, Bool.and_false]
    · rw [decide_eq_false hj, Bool.false_and]

/-- **The check of the last byte** finds whether a bit past the length is set. -/
theorem fits_iff {endByte : Byte} (hlength : bytes.length = bytesLength n)
    (hlast : bytes.getLast? = some endByte) :
    Fits n bytes ↔ ¬ (n &&& 7 ≠ 0 ∧ endByte.toNat &&& (255 >>> (n &&& 7)) ≠ 0) := by
  obtain ⟨hle, hlt⟩ := bytesLength_bounds n
  have hpos : 0 < bytes.length := List.length_pos_iff.mpr fun hnil => by
    rw [hnil] at hlast
    cases hlast
  have hbit : ∀ k, k / 8 = bytes.length - 1 → payloadBit bytes k = endByte.toNat.testBit (7 - k % 8) := by
    intro k hk
    rw [List.getLast?_eq_getElem?] at hlast
    rw [payloadBit, hk, List.getD_eq_getElem?_getD, hlast]
    rfl
  rw [and_7, not_and, not_not, unused_eq_zero endByte (Nat.mod_lt n (by decide)), Fits, and_iff_right hlength]
  constructor
  · intro hzero hremains j hj
    have hk := hzero (8 * (bytes.length - 1) + (7 - j)) (by omega) (by omega)
    rw [hbit _ (by omega), show 7 - (8 * (bytes.length - 1) + (7 - j)) % 8 = j by omega] at hk
    exact hk
  · intro hzero k hk hnk
    rw [hbit k (by omega)]
    exact hzero (by omega) _ (by omega)

theorem mem_payload (h : Fits n bytes) : k ∈ payload n bytes ↔ payloadBit bytes k = true := by
  rw [payload, Finset.mem_filter, Finset.mem_range]
  refine and_iff_right_of_imp fun hk => ?_
  by_contra hnk
  have hlt : k < 8 * bytes.length := by
    rw [payloadBit_eq] at hk
    have hlt := lt_of_bit hk
    rw [List.length_map] at hlt
    exact hlt
  rw [h.2 k hlt (Nat.le_of_not_lt hnk)] at hk
  cases hk

/-- **`decode_as_payload`** of a payload that fits adds its indices, and of any other changes nothing. -/
theorem Represents.decodeAsPayload (h : Represents s n A) (hn : 0 < n) (bytes : List Byte) :
    ∃ s', s.decodeAsPayload bytes = some (s', decide (Fits n bytes)) ∧
      (¬ Fits n bytes → s' = s) ∧
      Represents s' n (if Fits n bytes then A ∪ payload n bytes else A) := by
  rw [DynamicBitset.decodeAsPayload, h.length]
  by_cases hlength : bytes.length = bytesLength n
  · have hpos : 0 < bytes.length := by
      have hbounds := bytesLength_bounds n
      omega
    obtain ⟨endByte, hlast⟩ : ∃ endByte, bytes.getLast? = some endByte :=
      ⟨_, List.getLast?_eq_some_getLast (List.length_pos_iff.mp hpos)⟩
    have hfits := fits_iff hlength hlast
    rw [if_neg (not_not.mpr hlength), hlast]
    simp only
    split
    · rename_i hunused
      have hnot : ¬ Fits n bytes := fun hf => hfits.mp hf hunused
      rw [decide_eq_false hnot, if_neg hnot]
      exact ⟨s, rfl, fun _ => rfl, h⟩
    · rename_i hzero
      have hf : Fits n bytes := hfits.mpr hzero
      have hroom : 8 * (0 + bytes.length) ≤ 64 * s.bitfield.length := by
        rw [Nat.zero_add, hlength, h.words]
        exact bytesLength_le n
      obtain ⟨bitfield', hloop, hlength', hbits⟩ := decodeLoop_eq bytes s.bitfield 0 hroom
      rw [decide_eq_true hf, if_pos hf]
      refine ⟨{ s with bitfield := bitfield' }, ?_, fun hnot => absurd hf hnot, h.length,
        hlength'.trans h.words, fun k => ?_, fun k hk => ?_⟩
      · rw [show decodeLoop bytes s.bitfield 0 7 = some bitfield' from hloop, h.length]
        rfl
      · rw [hbits, Bool.or_eq_true, h.bits, Nat.mul_zero, Nat.sub_zero, decide_eq_true (Nat.zero_le k),
          Bool.true_and, ← payloadBit_eq, Finset.mem_union, mem_payload hf]
      · rcases Finset.mem_union.mp hk with hk | hk
        · exact h.below k hk
        · exact Finset.mem_range.mp (Finset.mem_filter.mp hk).1
  · have hnot : ¬ Fits n bytes := fun hf => hlength hf.1
    rw [if_pos hlength, decide_eq_false hnot, if_neg hnot]
    exact ⟨s, rfl, fun _ => rfl, h⟩

/-- **Every operation keeps the bitset in step with its set of indices.** -/
theorem Built.represents (h : Built n s A) : Represents s n A := by
  induction h with
  | ofCount => exact .ofCount n
  | set i _ ih => exact ih.set i
  | reset i _ ih => exact ih.reset i
  | clear _ ih => exact ih.clear
  | orAssign _ _ ih ih' => exact ih.orAssign ih'
  | andAssign _ _ ih ih' => exact ih.andAssign ih'
  | decodeAsPayload bytes hn _ hdecode ih =>
      obtain ⟨s', hs', -, hrepresents⟩ := ih.decodeAsPayload hn bytes
      rw [hdecode] at hs'
      cases hs'
      exact hrepresents

/-! ### The observers -/

namespace Represents

theorem test_iff (h : Represents s n A) (i : Nat) : s.test i = true ↔ i ∈ A := by
  rw [DynamicBitset.test]
  by_cases hi : i < n
  · rw [if_neg (h.not_le hi), getIndex_eq]
    exact bne_iff_ne.trans ((and_mask_ne_zero (Nat.mod_lt i (by decide))).trans (h.word_iff i))
  · rw [if_pos (h.length.trans_le (Nat.le_of_not_lt hi))]
    exact iff_of_false Bool.false_ne_true fun hmem => hi (h.below i hmem)

theorem count_eq (h : Represents s n A) : s.count = A.card := by
  have hset : A = {k ∈ Finset.range (64 * s.bitfield.length) | bit s.bitfield k} := by
    ext k
    rw [Finset.mem_filter, Finset.mem_range, h.bits]
    exact (and_iff_right_of_imp fun hk => lt_of_bit ((h.bits k).mpr hk)).symm
  have hcard : (List.range (64 * s.bitfield.length)).countP (fun k => bit s.bitfield k) =
      ({k ∈ Finset.range (64 * s.bitfield.length) | bit s.bitfield k} : Finset Nat).card := by
    rw [Finset.card_def, Finset.filter_val, Finset.range_val, ← Multiset.coe_range, Multiset.filter_coe,
      Multiset.coe_card, List.countP_eq_length_filter]
    simp only [Bool.decide_eq_true]
  rw [DynamicBitset.count, sum_cpop, hcard, ← hset]

theorem any_iff (h : Represents s n A) : s.any = true ↔ A.Nonempty := by
  rw [DynamicBitset.any, Finset.Nonempty]
  exact any_ne_zero.trans (exists_congr h.bits)

theorem none_iff (h : Represents s n A) : s.none = true ↔ A = ∅ := by
  rw [DynamicBitset.none, Bool.not_eq_true', Bool.eq_false_iff, Ne, h.any_iff,
    Finset.not_nonempty_iff_eq_empty]

/-- The words but the last hold all their indices. -/
theorem dropLast_iff (h : Represents s n A) : s.bitfield.dropLast.any (· != UINT64_MAX) = false ↔
    ∀ k < 64 * (s.bitfield.length - 1), k ∈ A := by
  rw [List.any_eq_false]
  constructor
  · intro hfull k hk
    have hi : k / 64 < s.bitfield.dropLast.length := by
      rw [List.length_dropLast]
      omega
    have hword := hfull _ (List.getElem_mem hi)
    rw [bne_iff_ne, not_not, List.getElem_dropLast] at hword
    rw [← h.word_iff, word, List.getD_eq_getElem _ _ (by rw [List.length_dropLast] at hi; omega), hword,
      BitVec.getMsbD_allOnes, decide_eq_true (Nat.mod_lt k (by decide))]
  · intro hall x hx
    obtain ⟨i, hi, rfl⟩ := List.mem_iff_getElem.mp hx
    rw [List.length_dropLast] at hi
    rw [bne_iff_ne, not_not, List.getElem_dropLast, eq_allOnes_iff]
    intro j hj
    have hbit := (h.bits (64 * i + j)).mpr (hall _ (by omega))
    rw [bit_mul_add s.bitfield i hj, List.getD_eq_getElem _ _ (by omega)] at hbit
    exact hbit

theorem getLastD_eq (h : Represents s n A) (hn : 0 < n) : s.bitfield.getLastD 0 = s.word ((n - 1) / 64) := by
  have hwords := wordsLength_bounds n
  have hindex : s.bitfield.length - 1 = (n - 1) / 64 := by
    rw [h.words]
    omega
  rw [List.getLastD_eq_getLast?, List.getLast?_eq_getElem?, hindex, word, List.getD_eq_getElem?_getD]

theorem all_iff (h : Represents s n A) : s.all = true ↔ ∀ i < n, i ∈ A := by
  have hwords := wordsLength_bounds n
  have hlength := h.words
  rw [DynamicBitset.all, h.length]
  rcases Nat.eq_zero_or_pos n with rfl | hn
  · exact iff_of_true rfl fun i hi => absurd hi (Nat.not_lt_zero i)
  rw [if_neg hn.ne', h.getLastD_eq hn]
  have hlast : ∀ j < 64, ((s.word ((n - 1) / 64)).getMsbD j = true ↔ 64 * ((n - 1) / 64) + j ∈ A) := by
    intro j hj
    rw [← h.bits, bit_mul_add s.bitfield _ hj]
    rfl
  cases hfull : s.bitfield.dropLast.any (· != UINT64_MAX) with
  | true =>
      rw [if_pos rfl]
      refine iff_of_false Bool.false_ne_true fun hall => ?_
      have hnot := h.dropLast_iff.mpr fun k hk => hall k (by omega)
      rw [hfull] at hnot
      cases hnot
  | false =>
      have hfirst := h.dropLast_iff.mp hfull
      rw [if_neg Bool.false_ne_true, and_63]
      split
      · rename_i hpart
        have hbelow : (s.word ((n - 1) / 64)).getMsbD (n % 64) = false := by
          refine Bool.eq_false_iff.mpr fun hset => ?_
          have hmem := h.below _ ((hlast _ (Nat.mod_lt n (by decide))).mp hset)
          omega
        rw [beq_iff_eq, clz_not_eq_iff (Nat.mod_lt n (by decide)), and_iff_left hbelow]
        constructor
        · intro hones i hi
          by_cases hword : i < 64 * (s.bitfield.length - 1)
          · exact hfirst i hword
          · have hmem := (hlast (i % 64) (Nat.mod_lt i (by decide))).mp (hones _ (by omega))
            rw [show 64 * ((n - 1) / 64) + i % 64 = i by omega] at hmem
            exact hmem
        · intro hall j hj
          exact (hlast j (by omega)).mpr (hall _ (by omega))
      · rename_i hwhole
        rw [beq_iff_eq, eq_allOnes_iff]
        constructor
        · intro hones i hi
          by_cases hword : i < 64 * (s.bitfield.length - 1)
          · exact hfirst i hword
          · have hmod := Nat.mod_lt i (show 0 < 64 by decide)
            have hmem := (hlast (i % 64) hmod).mp (hones _ hmod)
            rw [show 64 * ((n - 1) / 64) + i % 64 = i by omega] at hmem
            exact hmem
        · intro hall j hj
          exact (hlast j hj).mpr (hall _ (by omega))

end Represents

/-- **The bitset is its set of indices**, after any operations: it has the words of its length, nothing is
set past it, and every observer tells what the set tells. -/
theorem observers_agree (h : Built n s A) :
    s.bitfield.length = wordsLength n ∧ (∀ k, n ≤ k → bit s.bitfield k = false) ∧ (∀ k ∈ A, k < n) ∧
      (∀ i, s.test i = true ↔ i ∈ A) ∧ s.count = A.card ∧ (s.any = true ↔ A.Nonempty) ∧
      (s.none = true ↔ A = ∅) ∧ (s.all = true ↔ ∀ i < n, i ∈ A) ∧ s.size = n := by
  have hrep := h.represents
  refine ⟨hrep.words, fun k hk => Bool.eq_false_iff.mpr fun hbit => ?_, hrep.below, hrep.test_iff,
    hrep.count_eq, hrep.any_iff, hrep.none_iff, hrep.all_iff, hrep.length⟩
  exact Nat.not_lt.mpr hk (hrep.below k ((hrep.bits k).mp hbit))

theorem observers_agree_sample : DynamicBitset.count ⟨[0x2fc0000000000000#64], 10⟩ = 7 := by
  have hdecode : (ofCount 10).decodeAsPayload [0x2f, 0xc0] = some (⟨[0x2fc0000000000000#64], 10⟩, true) := by
    decide
  have hbuilt := Built.decodeAsPayload [0x2f, 0xc0] (by decide) .ofCount hdecode
  exact (observers_agree hbuilt).2.2.2.2.1.trans (by decide)

end DynamicBitset

end TorrentEngine
