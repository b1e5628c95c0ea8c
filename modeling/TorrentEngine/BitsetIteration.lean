import Mathlib.Data.Finset.Sort
import TorrentEngine.DynamicBitset
import TorrentEngine.SizeT

/-! The iterators of `DynamicBitset::set_bits`. An iterator caches the part of a word that has not been
read: a dereference takes the first bit out of the cache, and an increment caches the next word that has
bits, or the last word. -/

open PackedBits

namespace TorrentEngine.DynamicBitset

/-! ### The iterators -/

def npos : Nat := 2 ^ 64 - 1

/-- `set_range_t::iterator`, without the set that it belongs to. -/
structure Iterator where
  wordIndex : Nat
  cachedReads : BitVec 64
  deriving DecidableEq

namespace Iterator

/-- The loop of `operator++` over the words from `next` on. -/
def incrementLoop : List (BitVec 64) → Nat → Iterator → Iterator
  | [], _, it => it
  | word :: words, next, it =>
      if it.cachedReads ≠ 0 then it else incrementLoop words (next + 1) ⟨next, word⟩

/-- `operator*`: the index, and the iterator without the bit that was read. -/
def dereference (it : Iterator) : Nat × Iterator :=
  let setBitIndex := it.cachedReads.clz.toNat
  let cachedReads :=
    if setBitIndex < 64 then it.cachedReads &&& ~~~(1#64 <<< (63 - setBitIndex)) else it.cachedReads
  (64 * it.wordIndex + setBitIndex, ⟨it.wordIndex, cachedReads⟩)

end Iterator

section

variable (s : DynamicBitset)

/-- `operator++`. -/
def increment (it : Iterator) : Iterator :=
  it.incrementLoop (s.bitfield.drop (it.wordIndex + 1)) (it.wordIndex + 1)

/-- `end`. The word index wraps when there are no words. -/
def endIterator : Iterator := ⟨SizeT.sub s.bitfield.length 1, 0⟩

/-- `begin`. -/
def beginIterator : Iterator :=
  if s.length = 0 then s.endIterator
  else
    let startIterator : Iterator := ⟨0, s.word 0⟩
    if s.test 0 then startIterator else s.increment startIterator

def findFirst : Nat :=
  let first := s.beginIterator
  if first = s.endIterator then npos else first.dereference.1

def findNext (start : Nat) : Nat :=
  if s.length ≤ start then npos
  else
    let currentBitIndex := start &&& 63
    let next : Iterator :=
      ⟨start / 64,
        if currentBitIndex = 63 then 0 else s.word (start / 64) &&& UINT64_MAX >>> (currentBitIndex + 1)⟩
    let next := s.increment next
    if next = s.endIterator then npos else next.dereference.1

/-- The indices that a range-for reads, from an iterator on, when it ends within so many turns. -/
def rangeFor : Nat → Iterator → Option (List Nat)
  | 0, _ => Option.none
  | turns + 1, it =>
      if it = s.endIterator then some []
      else
        let (index, it) := it.dereference
        (rangeFor turns (s.increment it)).map (index :: ·)

/-- The indices that `find_next` goes through, from one on, when it ends within so many turns. -/
def findAll : Nat → Nat → Option (List Nat)
  | 0, _ => Option.none
  | turns + 1, index =>
      if index = npos then some [] else (findAll turns (s.findNext index)).map (index :: ·)

end

/-! ### What an iterator has still to read -/

variable {n : Nat} {s : DynamicBitset} {A R : Finset Nat} {it : Iterator}

/-- The indices of an iterator: those cached, and those of the words after its own. -/
structure Shows (s : DynamicBitset) (it : Iterator) (R : Finset Nat) : Prop where
  wordIndex_lt : it.wordIndex < s.bitfield.length
  mem_iff : ∀ k, k ∈ R ↔ (k / 64 = it.wordIndex ∧ it.cachedReads.getMsbD (k % 64) = true) ∨
    (it.wordIndex < k / 64 ∧ bit s.bitfield k = true)

/-- An iterator after an increment: only at the last word does it cache nothing. -/
def Ready (s : DynamicBitset) (it : Iterator) : Prop :=
  it.cachedReads = 0 → it.wordIndex + 1 = s.bitfield.length

theorem bit_word (s : DynamicBitset) (k : Nat) : bit s.bitfield k = (s.word (k / 64)).getMsbD (k % 64) := rfl

/-- An exhausted cache can be replaced by the next word. -/
theorem Shows.next (h : Shows s it R) (hcache : it.cachedReads = 0)
    (hnext : it.wordIndex + 1 < s.bitfield.length) :
    Shows s ⟨it.wordIndex + 1, s.word (it.wordIndex + 1)⟩ R := by
  refine ⟨hnext, fun k => ?_⟩
  rw [h.mem_iff, hcache]
  constructor
  · rintro (⟨-, hbit⟩ | ⟨hlt, hbit⟩)
    · rw [BitVec.ofNat_eq_ofNat, BitVec.getMsbD_zero] at hbit
      cases hbit
    · rcases Nat.lt_or_eq_of_le (Nat.succ_le_of_lt hlt) with hlater | heq
      · exact Or.inr ⟨hlater, hbit⟩
      · refine Or.inl ⟨heq.symm, ?_⟩
        rw [bit_word, ← heq] at hbit
        exact hbit
  · rintro (⟨heq, hbit⟩ | ⟨hlt, hbit⟩)
    · dsimp only at heq
      refine Or.inr ⟨by omega, ?_⟩
      rw [bit_word, heq]
      exact hbit
    · exact Or.inr ⟨Nat.lt_of_succ_lt hlt, hbit⟩

/-- The loop of `operator++` keeps the indices, and caches a word that has some if there is one. -/
theorem Shows.incrementLoop {words : List (BitVec 64)} (h : Shows s it R)
    (hwords : words = s.bitfield.drop (it.wordIndex + 1)) :
    Shows s (it.incrementLoop words (it.wordIndex + 1)) R ∧
      Ready s (it.incrementLoop words (it.wordIndex + 1)) := by
  induction words generalizing it with
  | nil =>
      refine ⟨h, fun _ => ?_⟩
      have hlength := List.drop_eq_nil_iff.mp hwords.symm
      have hlt := h.wordIndex_lt
      exact Nat.le_antisymm hlt hlength
  | cons word words ih =>
      have hnext : it.wordIndex + 1 < s.bitfield.length := by
        by_contra hnot
        rw [List.drop_of_length_le (Nat.le_of_not_lt hnot)] at hwords
        cases hwords
      rw [List.drop_eq_getElem_cons hnext] at hwords
      obtain ⟨hword, hrest⟩ := List.cons.inj hwords
      rw [Iterator.incrementLoop]
      by_cases hcache : it.cachedReads = 0
      · have hloaded : word = s.word (it.wordIndex + 1) := by
          rw [hword, DynamicBitset.word, List.getD_eq_getElem _ _ hnext]
        rw [if_neg (not_not.mpr hcache), hloaded]
        exact ih (h.next hcache hnext) hrest
      · rw [if_pos hcache]
        exact ⟨h, fun hzero => absurd hzero hcache⟩

theorem Shows.increment (h : Shows s it R) : Shows s (s.increment it) R ∧ Ready s (s.increment it) :=
  h.incrementLoop rfl

/-- The end sentinel is the iterator that has nothing left. -/
theorem Shows.eq_end_iff (h : Shows s it R) (hready : Ready s it) (hlength : s.bitfield.length < 2 ^ 64) :
    it = s.endIterator ↔ R = ∅ := by
  have hlt := h.wordIndex_lt
  have hend : SizeT.sub s.bitfield.length 1 = s.bitfield.length - 1 :=
    SizeT.sub_of_le (by omega) hlength
  rw [endIterator, hend]
  constructor
  · rintro rfl
    apply Finset.eq_empty_of_forall_notMem
    intro k hk
    rcases (h.mem_iff k).mp hk with ⟨-, hbit⟩ | ⟨hlater, hbit⟩
    · rw [BitVec.ofNat_eq_ofNat, BitVec.getMsbD_zero] at hbit
      cases hbit
    · have hbound := lt_of_bit hbit
      dsimp only at hlater
      omega
  · intro hempty
    have hcache : it.cachedReads = 0 := by
      by_contra hne
      obtain ⟨j, hj⟩ := ne_zero_iff.mp hne
      have hj64 : j < 64 := by
        by_contra hnot
        rw [BitVec.getMsbD_of_ge _ _ (Nat.le_of_not_lt hnot)] at hj
        cases hj
      have hmem : 64 * it.wordIndex + j ∈ R := by
        apply (h.mem_iff _).mpr
        rw [show (64 * it.wordIndex + j) / 64 = it.wordIndex by omega,
          show (64 * it.wordIndex + j) % 64 = j by omega]
        exact Or.inl ⟨rfl, hj⟩
      rw [hempty] at hmem
      exact absurd hmem (Finset.notMem_empty _)
    have hword : it.wordIndex = s.bitfield.length - 1 := by
      have hlast := hready hcache
      omega
    rw [← hcache, ← hword]

/-- **A dereference takes the least index.** -/
theorem Shows.dereference (h : Shows s it R) (hcache : it.cachedReads ≠ 0) :
    it.dereference.1 ∈ R ∧ (∀ k ∈ R, it.dereference.1 ≤ k) ∧
      Shows s it.dereference.2 (R.erase it.dereference.1) := by
  have hlt := clz_lt hcache
  have hfirst := getMsbD_clz hcache
  obtain ⟨b, hb⟩ : ∃ b, it.cachedReads.clz.toNat = b := ⟨_, rfl⟩
  have hdereference : it.dereference =
      (64 * it.wordIndex + b, ⟨it.wordIndex, it.cachedReads &&& ~~~(1#64 <<< (64 - 1 - b))⟩) := by
    rw [Iterator.dereference, hb]
    rw [hb] at hlt
    simp only [if_pos hlt]
  rw [hb] at hlt hfirst
  rw [hdereference]
  dsimp only
  refine ⟨?_, ?_, h.wordIndex_lt, ?_⟩
  · apply (h.mem_iff _).mpr
    rw [show (64 * it.wordIndex + b) / 64 = it.wordIndex by omega,
      show (64 * it.wordIndex + b) % 64 = b by omega]
    exact Or.inl ⟨rfl, hfirst⟩
  · intro k hk
    rcases (h.mem_iff k).mp hk with ⟨hword, hbit⟩ | ⟨hlater, -⟩
    · have hle : b ≤ k % 64 := by
        by_contra hnot
        rw [getMsbD_of_lt_clz (by omega)] at hbit
        cases hbit
      omega
    · omega
  · intro k
    rw [Finset.mem_erase, h.mem_iff]
    dsimp only
    rw [getMsbD_clear hlt, Bool.and_eq_true, decide_eq_true_iff]
    constructor
    · rintro ⟨hne, ⟨hword, hbit⟩ | hlater⟩
      · exact Or.inl ⟨hword, hbit, fun heq => hne (by omega)⟩
      · exact Or.inr hlater
    · rintro (⟨hword, hbit, hne⟩ | ⟨hlater, hbit⟩)
      · exact ⟨fun heq => hne (by omega), Or.inl ⟨hword, hbit⟩⟩
      · exact ⟨fun heq => by omega, Or.inr ⟨hlater, hbit⟩⟩

/-- An iterator that is not at the end caches something. -/
theorem Ready.cache_ne_zero (hready : Ready s it) (hlength : s.bitfield.length < 2 ^ 64)
    (hend : it ≠ s.endIterator) : it.cachedReads ≠ 0 := by
  intro hzero
  have hlast := hready hzero
  have hsub : SizeT.sub s.bitfield.length 1 = s.bitfield.length - 1 :=
    SizeT.sub_of_le (by omega) hlength
  apply hend
  rw [endIterator, hsub, ← hlast, Nat.add_sub_cancel, ← hzero]

theorem sort_eq_cons {i : Nat} (hmem : i ∈ R) (hleast : ∀ k ∈ R, i ≤ k) :
    R.sort = i :: (R.erase i).sort := by
  rw [← Finset.sort_insert _ (fun k hk => hleast k (Finset.mem_of_mem_erase hk)) (Finset.notMem_erase i R),
    Finset.insert_erase hmem]

/-- **A range-for reads what its iterator shows**, in order, and ends. -/
theorem Shows.rangeFor (h : Shows s it R) (hready : Ready s it) (hlength : s.bitfield.length < 2 ^ 64)
    {turns : Nat} (hturns : R.card < turns) : s.rangeFor turns it = some R.sort := by
  induction turns generalizing it R with
  | zero => exact absurd hturns (Nat.not_lt_zero _)
  | succ turns ih =>
      rw [DynamicBitset.rangeFor]
      by_cases hend : it = s.endIterator
      · rw [if_pos hend, (h.eq_end_iff hready hlength).mp hend, Finset.sort_empty]
      · obtain ⟨hmem, hleast, hrest⟩ := h.dereference (hready.cache_ne_zero hlength hend)
        obtain ⟨hnext, hnextReady⟩ := hrest.increment
        have hcard : (R.erase it.dereference.1).card < turns := by
          rw [Finset.card_erase_of_mem hmem]
          have hpos := Finset.card_pos.mpr ⟨_, hmem⟩
          omega
        rw [if_neg hend]
        dsimp only
        rw [ih hnext hnextReady hcard, sort_eq_cons hmem hleast]
        rfl

/-- The least index of a set, or `npos`. -/
def least (R : Finset Nat) : Nat := if h : R.Nonempty then R.min' h else npos

theorem least_eq {i : Nat} (hmem : i ∈ R) (hleast : ∀ k ∈ R, i ≤ k) : least R = i := by
  rw [least, dif_pos ⟨i, hmem⟩]
  exact le_antisymm (Finset.min'_le R i hmem) (Finset.le_min' R _ i hleast)

theorem least_empty : least ∅ = npos := dif_neg Finset.not_nonempty_empty

/-- The index that an iterator is at, or `npos` at the end. -/
theorem Shows.least (h : Shows s it R) (hready : Ready s it) (hlength : s.bitfield.length < 2 ^ 64) :
    (if it = s.endIterator then npos else it.dereference.1) = least R := by
  by_cases hend : it = s.endIterator
  · rw [if_pos hend, (h.eq_end_iff hready hlength).mp hend, least_empty]
  · obtain ⟨hmem, hleast, -⟩ := h.dereference (hready.cache_ne_zero hlength hend)
    rw [if_neg hend, least_eq hmem hleast]

namespace Represents

/-- `begin` shows the whole set, unless there are no words. -/
theorem beginIterator (h : Represents s n A) (hn : 0 < n) :
    Shows s s.beginIterator A ∧ Ready s s.beginIterator := by
  have hwords := (wordsLength_bounds n).1
  have hstart : Shows s ⟨0, s.word 0⟩ A := by
    refine ⟨by rw [h.words]; dsimp only; omega, fun k => ?_⟩
    rw [← h.bits]
    dsimp only
    constructor
    · intro hbit
      rcases Nat.eq_zero_or_pos (k / 64) with hzero | hpos
      · rw [bit_word, hzero] at hbit
        exact Or.inl ⟨hzero, hbit⟩
      · exact Or.inr ⟨hpos, hbit⟩
    · rintro (⟨hzero, hbit⟩ | ⟨-, hbit⟩)
      · rw [bit_word, hzero]
        exact hbit
      · exact hbit
  rw [DynamicBitset.beginIterator, h.length, if_neg hn.ne']
  dsimp only
  split
  · rename_i htest
    refine ⟨hstart, fun hzero => ?_⟩
    have hfirst := (h.word_iff 0).mpr ((h.test_iff 0).mp htest)
    dsimp only at hzero
    rw [hzero, BitVec.ofNat_eq_ofNat, BitVec.getMsbD_zero] at hfirst
    cases hfirst
  · exact hstart.increment

theorem empty_of_zero (h : Represents s 0 A) : A = ∅ :=
  Finset.eq_empty_of_forall_notMem fun k hk => Nat.not_lt_zero k (h.below k hk)

theorem length_lt (h : Represents s n A) (hn : n < 2 ^ 64) : s.bitfield.length < 2 ^ 64 := by
  have hwords := (wordsLength_bounds n).2
  rw [h.words]
  omega

/-- **A range-for reads the set in order.** -/
theorem rangeFor (h : Represents s n A) (hn : n < 2 ^ 64) {turns : Nat} (hturns : A.card < turns) :
    s.rangeFor turns s.beginIterator = some A.sort := by
  rcases Nat.eq_zero_or_pos n with rfl | hpos
  · obtain ⟨turns, rfl⟩ : ∃ m, turns = m + 1 := ⟨turns - 1, by omega⟩
    have hbegin : s.beginIterator = s.endIterator := if_pos h.length
    rw [DynamicBitset.rangeFor, hbegin, if_pos rfl, h.empty_of_zero, Finset.sort_empty]
  · obtain ⟨hshows, hready⟩ := h.beginIterator hpos
    exact hshows.rangeFor hready (h.length_lt hn) hturns

/-- **`find_first`** is the least index. -/
theorem findFirst (h : Represents s n A) (hn : n < 2 ^ 64) : s.findFirst = least A := by
  rw [DynamicBitset.findFirst]
  rcases Nat.eq_zero_or_pos n with rfl | hpos
  · have hbegin : s.beginIterator = s.endIterator := if_pos h.length
    rw [if_pos hbegin, h.empty_of_zero, least_empty]
  · obtain ⟨hshows, hready⟩ := h.beginIterator hpos
    exact hshows.least hready (h.length_lt hn)

/-- What `find_next` starts from: the rest of the word of the index, and the words after it. -/
theorem showsNext (h : Represents s n A) {start : Nat} (hstart : start < n) :
    Shows s
      ⟨start / 64, if start &&& 63 = 63 then 0
        else s.word (start / 64) &&& UINT64_MAX >>> ((start &&& 63) + 1)⟩
      (A.filter (start < ·)) := by
  refine ⟨h.lt_length hstart, fun k => ?_⟩
  have hmod := Nat.mod_lt start (show 0 < 64 by decide)
  have hkmod := Nat.mod_lt k (show 0 < 64 by decide)
  have hcached : (if start &&& 63 = 63 then 0
      else s.word (start / 64) &&& UINT64_MAX >>> ((start &&& 63) + 1)).getMsbD (k % 64) = true ↔
        start % 64 < k % 64 ∧ (s.word (start / 64)).getMsbD (k % 64) = true := by
    rw [and_63]
    split
    · rename_i hlast
      rw [BitVec.ofNat_eq_ofNat, BitVec.getMsbD_zero]
      exact iff_of_false Bool.false_ne_true fun hlater => by omega
    · rw [BitVec.getMsbD_and, getMsbD_suffix, Bool.and_eq_true, decide_eq_true_iff]
      constructor
      · rintro ⟨hbit, hle, -⟩
        exact ⟨hle, hbit⟩
      · rintro ⟨hle, hbit⟩
        exact ⟨hbit, hle, hkmod⟩
  rw [Finset.mem_filter, ← h.bits, hcached]
  dsimp only
  constructor
  · rintro ⟨hbit, hlt⟩
    rcases Nat.lt_or_eq_of_le (Nat.div_le_div_right (c := 64) hlt.le) with hlater | hsame
    · exact Or.inr ⟨hlater, hbit⟩
    · rw [bit_word, ← hsame] at hbit
      exact Or.inl ⟨hsame.symm, by omega, hbit⟩
  · rintro (⟨hsame, hlt, hbit⟩ | ⟨hlater, hbit⟩)
    · rw [bit_word, hsame]
      exact ⟨hbit, by omega⟩
    · exact ⟨hbit, by omega⟩

/-- **`find_next`** is the least later index, also from past the end. -/
theorem findNext (h : Represents s n A) (hn : n < 2 ^ 64) (start : Nat) :
    s.findNext start = least (A.filter (start < ·)) := by
  rw [DynamicBitset.findNext, h.length]
  by_cases hstart : start < n
  · rw [if_neg (Nat.not_le.mpr hstart)]
    dsimp only
    obtain ⟨hshows, hready⟩ := (h.showsNext hstart).increment
    exact hshows.least hready (h.length_lt hn)
  · have hnone : A.filter (start < ·) = ∅ := by
      apply Finset.filter_eq_empty_iff.mpr
      intro k hk hlt
      have hbelow := h.below k hk
      omega
    rw [if_pos (Nat.le_of_not_lt hstart), hnone, least_empty]

/-- Repeating `find_next` from the least index of a tail of the set reads that tail. -/
theorem findAll (h : Represents s n A) (hn : n < 2 ^ 64) {low turns : Nat}
    (hturns : (A.filter (low ≤ ·)).card < turns) :
    s.findAll turns (least (A.filter (low ≤ ·))) = some (A.filter (low ≤ ·)).sort := by
  induction turns generalizing low with
  | zero => exact absurd hturns (Nat.not_lt_zero _)
  | succ turns ih =>
      rw [DynamicBitset.findAll]
      rcases (A.filter (low ≤ ·)).eq_empty_or_nonempty with hempty | hne
      · rw [hempty, least_empty, if_pos rfl, Finset.sort_empty]
      · have hmin := Finset.min'_mem _ hne
        have hleast : ∀ k ∈ A.filter (low ≤ ·), (A.filter (low ≤ ·)).min' hne ≤ k :=
          fun k hk => Finset.min'_le _ k hk
        obtain ⟨i, hi⟩ : ∃ i, (A.filter (low ≤ ·)).min' hne = i := ⟨_, rfl⟩
        rw [hi] at hmin hleast
        obtain ⟨hmem, hfrom⟩ := Finset.mem_filter.mp hmin
        have hbelow := h.below i hmem
        have hrest : A.filter (i < ·) = (A.filter (low ≤ ·)).erase i := by
          ext k
          rw [Finset.mem_erase, Finset.mem_filter, Finset.mem_filter]
          constructor
          · rintro ⟨hk, hlt⟩
            exact ⟨hlt.ne', hk, by omega⟩
          · rintro ⟨hne, hk, hle⟩
            have hik := hleast k (Finset.mem_filter.mpr ⟨hk, hle⟩)
            exact ⟨hk, by omega⟩
        have hnpos : i ≠ npos := by
          rw [npos]
          omega
        have hsucc : A.filter (i < ·) = A.filter (i + 1 ≤ ·) := rfl
        have hcard : (A.filter (i + 1 ≤ ·)).card < turns := by
          rw [← hsucc, hrest, Finset.card_erase_of_mem hmin]
          have hpos := Finset.card_pos.mpr hne
          omega
        rw [least_eq hmin hleast, if_neg hnpos, h.findNext hn, hsucc, ih hcard, ← hsucc, hrest,
          sort_eq_cons hmin hleast]
        rfl

end Represents

/-- **Iteration enumerates the set.** After any operations a range-for ends and reads the indices of the
set, each once and in increasing order; `find_first` and `find_next` are the least index and the least later
one, or `npos`; and repeating `find_next` reads the same indices. -/
theorem iteration (h : Built n s A) (hn : n < 2 ^ 64) :
    (∃ indices : List Nat, indices.Pairwise (· < ·) ∧ (∀ k, k ∈ indices ↔ k ∈ A) ∧
      ∀ turns, A.card < turns → s.rangeFor turns s.beginIterator = some indices ∧
        s.findAll turns s.findFirst = some indices) ∧
      s.findFirst = least A ∧ ∀ start, s.findNext start = least (A.filter (start < ·)) := by
  have hrep := h.represents
  refine ⟨⟨A.sort, A.sortedLT_sort.pairwise, fun k => Finset.mem_sort _, fun turns hturns => ?_⟩,
    hrep.findFirst hn, hrep.findNext hn⟩
  have hwhole : A.filter (0 ≤ ·) = A := Finset.filter_true_of_mem fun k _ => Nat.zero_le k
  have hall := @Represents.findAll n s A hrep hn 0 turns (by rw [hwhole]; exact hturns)
  rw [hwhole] at hall
  rw [hrep.findFirst hn]
  exact ⟨hrep.rangeFor hn hturns, hall⟩

theorem iteration_sample :
    (⟨[0x2fc0000000000000#64], 10⟩ : DynamicBitset).findAll 11
        (findFirst ⟨[0x2fc0000000000000#64], 10⟩) = some [2, 4, 5, 6, 7, 8, 9] := by
  have hdecode : (ofCount 10).decodeAsPayload [0x2f, 0xc0] = some (⟨[0x2fc0000000000000#64], 10⟩, true) := by
    decide
  have hbuilt := Built.decodeAsPayload [0x2f, 0xc0] (by decide) .ofCount hdecode
  obtain ⟨⟨indices, -, -, hindices⟩, -⟩ := iteration hbuilt (by decide)
  obtain ⟨hrange, hall⟩ := hindices 11 (by decide +kernel)
  rw [hall, ← hrange]
  decide +kernel

end TorrentEngine.DynamicBitset
