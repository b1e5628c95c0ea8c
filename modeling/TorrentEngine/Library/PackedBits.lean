import Mathlib.Algebra.GroupWithZero.Nat
import Mathlib.Algebra.Order.BigOperators.Group.List
import Mathlib.Data.List.GetD
import Mathlib.Data.Nat.Count
import Mathlib.Data.Nat.ModEq

/-! Bits packed into a list of words, the most significant bit of the first word first. Two packings of
the same bits are compared bit by bit, also when their words are of different widths. -/

namespace PackedBits

variable {w v : Nat} {ws vs : List (BitVec w)} {x : BitVec w} {i j k n : Nat}

/-- The bit with this index. There is none past the last word. -/
def bit (ws : List (BitVec w)) (k : Nat) : Bool := (ws.getD (k / w) 0#w).getMsbD (k % w)

theorem bit_mul_add (ws : List (BitVec w)) (i : Nat) (hj : j < w) :
    bit ws (w * i + j) = (ws.getD i 0#w).getMsbD j := by
  rw [bit, Nat.mul_add_div (Nat.zero_lt_of_lt hj), Nat.div_eq_of_lt hj, Nat.mul_add_mod,
    Nat.mod_eq_of_lt hj, Nat.add_zero]

theorem bit_of_le (h : w * ws.length ≤ k) : bit ws k = false := by
  rw [bit]
  rcases Nat.eq_zero_or_pos w with rfl | hw
  · exact BitVec.getMsbD_zero_length _
  · rw [List.getD_eq_default]
    · exact BitVec.getMsbD_zero
    · rw [Nat.le_div_iff_mul_le hw, Nat.mul_comm]
      exact h

theorem lt_of_bit (h : bit ws k = true) : k < w * ws.length := by
  by_contra hle
  rw [bit_of_le (Nat.le_of_not_lt hle)] at h
  cases h

@[simp] theorem bit_nil : bit ([] : List (BitVec w)) k = false := bit_of_le (Nat.zero_le _)

theorem bit_cons : bit (x :: ws) k = if k < w then x.getMsbD k else bit ws (k - w) := by
  split
  · rename_i hk
    have hfirst := bit_mul_add (x :: ws) 0 hk
    rw [Nat.mul_zero, Nat.zero_add] at hfirst
    exact hfirst
  · rename_i hk
    rcases Nat.eq_zero_or_pos w with rfl | hw
    · rw [bit, bit, BitVec.getMsbD_zero_length, BitVec.getMsbD_zero_length]
    · obtain ⟨r, rfl⟩ := Nat.exists_eq_add_of_le (Nat.le_of_not_lt hk)
      rw [bit, bit, Nat.add_div_left r hw, Nat.add_mod_left, Nat.add_sub_cancel_left]
      rfl

/-- **Words of one width are what their bits are.** -/
theorem ext (hlength : ws.length = vs.length) (h : ∀ k < w * ws.length, bit ws k = bit vs k) :
    ws = vs := by
  refine List.ext_getElem hlength fun i hi hi' => BitVec.eq_of_getMsbD_eq fun j hj => ?_
  have hlt : w * i + j < w * ws.length := by
    refine lt_of_lt_of_le (Nat.add_lt_add_left hj _) ?_
    rw [← Nat.mul_succ]
    exact Nat.mul_le_mul_left w hi
  have hbit := h (w * i + j) hlt
  rw [bit_mul_add ws i hj, bit_mul_add vs i hj, List.getD_eq_getElem _ _ hi,
    List.getD_eq_getElem _ _ hi'] at hbit
  exact hbit

/-! ### Operations on words -/

@[simp] theorem bit_replicate_zero : bit (List.replicate n 0#w) k = false := by
  induction n generalizing k with
  | zero => exact bit_nil
  | succ n ih =>
      rw [List.replicate_succ, bit_cons, ih]
      split
      · exact BitVec.getMsbD_zero
      · rfl

theorem bit_set (hi : i < ws.length) :
    bit (ws.set i x) k = if k / w = i then x.getMsbD (k % w) else bit ws k := by
  rw [bit, bit, List.getD_eq_getElem?_getD, List.getD_eq_getElem?_getD, List.getElem?_set]
  split
  · rename_i heq
    rw [if_pos heq.symm]
    rfl
  · rename_i hne
    rw [if_neg (Ne.symm hne)]

theorem bit_zipWith (f : BitVec w → BitVec w → BitVec w) (g : Bool → Bool → Bool)
    (hfg : ∀ x y j, j < w → (f x y).getMsbD j = g (x.getMsbD j) (y.getMsbD j)) (hg : g false false = false)
    (h : ws.length = vs.length) : bit (List.zipWith f ws vs) k = g (bit ws k) (bit vs k) := by
  induction ws generalizing vs k with
  | nil =>
      rw [List.zipWith_nil_left, List.length_eq_zero_iff.mp h.symm, bit_nil, hg]
  | cons x ws ih =>
      cases vs with
      | nil => cases h
      | cons y vs =>
          rw [List.zipWith_cons_cons, bit_cons, bit_cons, bit_cons]
          split
          · rename_i hk
            exact hfg x y k hk
          · exact ih (Nat.succ_injective h)

theorem bit_or (h : ws.length = vs.length) :
    bit (List.zipWith (· ||| ·) ws vs) k = (bit ws k || bit vs k) :=
  bit_zipWith _ or (fun _ _ _ _ => BitVec.getMsbD_or) rfl h

theorem bit_and (h : ws.length = vs.length) :
    bit (List.zipWith (· &&& ·) ws vs) k = (bit ws k && bit vs k) :=
  bit_zipWith _ and (fun _ _ _ _ => BitVec.getMsbD_and) rfl h

theorem bit_append : bit (ws ++ vs) k =
    if k < w * ws.length then bit ws k else bit vs (k - w * ws.length) := by
  induction ws generalizing k with
  | nil => rfl
  | cons x ws ih =>
      rw [List.cons_append, bit_cons, bit_cons, ih, List.length_cons, Nat.mul_succ]
      split
      · rename_i hk
        rw [if_pos (hk.trans_le (Nat.le_add_left _ _))]
      · rename_i hk
        by_cases hlt : k - w < w * ws.length
        · rw [if_pos hlt, if_pos (by omega)]
        · rw [if_neg hlt, if_neg (by omega)]
          congr 1
          omega

theorem bit_take : bit (ws.take n) k = (decide (k < w * n) && bit ws k) := by
  have happend := @bit_append w (ws.take n) (ws.drop n) k
  rw [List.take_append_drop, List.length_take] at happend
  by_cases hk : k < w * n
  · rw [decide_eq_true hk, Bool.true_and, happend]
    split
    · rfl
    · rename_i hnot
      have hlength : ws.length ≤ n := by
        by_contra hlt
        rw [Nat.min_eq_left (Nat.le_of_not_le hlt)] at hnot
        exact hnot hk
      rw [List.drop_eq_nil_of_le hlength, bit_nil, List.take_of_length_le hlength]
      refine bit_of_le ?_
      rw [Nat.min_eq_right hlength] at hnot
      exact Nat.le_of_not_lt hnot
  · rw [decide_eq_false hk, Bool.false_and]
    refine bit_of_le (le_trans (Nat.mul_le_mul_left w ?_) (Nat.le_of_not_lt hk))
    rw [List.length_take]
    exact Nat.min_le_left _ _

/-! ### Words -/

theorem ne_zero_iff : x ≠ 0#w ↔ ∃ j, x.getMsbD j = true := by
  constructor
  · intro hne
    by_contra hnone
    refine hne (BitVec.eq_of_getMsbD_eq fun j _ => ?_)
    rw [BitVec.getMsbD_zero]
    exact Bool.eq_false_iff.mpr fun h => hnone ⟨j, h⟩
  · rintro ⟨j, hj⟩ rfl
    rw [BitVec.getMsbD_zero] at hj
    cases hj

theorem eq_allOnes_iff : x = BitVec.allOnes w ↔ ∀ j < w, x.getMsbD j = true := by
  constructor
  · rintro rfl j hj
    rw [BitVec.getMsbD_allOnes, decide_eq_true hj]
  · intro h
    refine BitVec.eq_of_getMsbD_eq fun j hj => ?_
    rw [BitVec.getMsbD_allOnes, h j hj, decide_eq_true hj]

/-- The mask of one bit. -/
theorem getMsbD_mask (hj : j < w) : (1#w <<< (w - 1 - j)).getMsbD k = decide (k = j) := by
  rw [BitVec.getMsbD_shiftLeft, BitVec.getMsbD_one]
  by_cases hk : k = j
  · subst hk
    rw [decide_eq_true rfl, decide_eq_true (show k + (w - 1 - k) = w - 1 by omega),
      decide_eq_true (show 0 < w by omega)]
    rfl
  · rw [decide_eq_false hk, decide_eq_false (show ¬ k + (w - 1 - j) = w - 1 by omega), Bool.false_and]

theorem and_mask_ne_zero (hj : j < w) : x &&& (1#w <<< (w - 1 - j)) ≠ 0#w ↔ x.getMsbD j = true := by
  rw [ne_zero_iff]
  simp only [BitVec.getMsbD_and, getMsbD_mask hj, Bool.and_eq_true, decide_eq_true_iff, exists_eq_right]

/-- A word without one of its bits. -/
theorem getMsbD_clear (hj : j < w) :
    (x &&& ~~~(1#w <<< (w - 1 - j))).getMsbD k = (x.getMsbD k && decide (k ≠ j)) := by
  rw [BitVec.getMsbD_and, BitVec.getMsbD_not, getMsbD_mask hj]
  by_cases hk : k < w
  · simp [hk]
  · rw [BitVec.getMsbD_of_ge x k (Nat.le_of_not_lt hk), Bool.false_and, Bool.false_and]

/-- The mask of the bits from one on. -/
theorem getMsbD_suffix : (BitVec.allOnes w >>> j).getMsbD k = decide (j ≤ k ∧ k < w) := by
  rw [BitVec.getMsbD_ushiftRight, BitVec.getMsbD_allOnes, Bool.eq_iff_iff]
  simp only [Bool.and_eq_true, decide_eq_true_iff, Bool.not_eq_true', decide_eq_false_iff_not]
  omega

/-- A narrower word, placed at an offset. -/
theorem getMsbD_placed (y : BitVec v) (h : i + v ≤ w) (hk : k < w) :
    (y.setWidth w <<< (w - (i + v))).getMsbD k = (decide (i ≤ k ∧ k < i + v) && y.getMsbD (k - i)) := by
  rw [BitVec.getMsbD_eq_getLsbD, BitVec.getLsbD_shiftLeft, BitVec.getLsbD_setWidth, decide_eq_true hk,
    decide_eq_true (show w - 1 - k < w by omega), BitVec.getMsbD_eq_getLsbD]
  by_cases hbelow : k < i + v
  · by_cases habove : i ≤ k
    · have hindex : w - 1 - k - (w - (i + v)) = v - 1 - (k - i) := by omega
      rw [hindex, decide_eq_false (show ¬ w - 1 - k < w - (i + v) by omega),
        decide_eq_true (show v - 1 - (k - i) < w by omega), decide_eq_true (And.intro habove hbelow),
        decide_eq_true (show k - i < v by omega)]
      simp only [Bool.true_and, Bool.not_false]
    · rw [decide_eq_false (show ¬ (i ≤ k ∧ k < i + v) by omega), Bool.false_and,
        BitVec.getLsbD_of_ge y _ (show v ≤ w - 1 - k - (w - (i + v)) by omega), Bool.and_false,
        Bool.and_false, Bool.and_false]
  · rw [decide_eq_false (show ¬ (i ≤ k ∧ k < i + v) by omega), Bool.false_and,
      decide_eq_true (show w - 1 - k < w - (i + v) by omega)]
    rfl

/-! ### Observations -/

theorem any_ne_zero : ws.any (· != 0#w) = true ↔ ∃ k, bit ws k = true := by
  rw [List.any_eq_true]
  constructor
  · rintro ⟨x, hx, hne⟩
    obtain ⟨i, hi, rfl⟩ := List.mem_iff_getElem.mp hx
    by_contra hnone
    refine bne_iff_ne.mp hne (BitVec.eq_of_getMsbD_eq fun j hj => ?_)
    rw [BitVec.getMsbD_zero]
    have hbit := bit_mul_add ws i hj
    rw [List.getD_eq_getElem _ _ hi] at hbit
    rw [← hbit]
    exact Bool.eq_false_iff.mpr fun h => hnone ⟨_, h⟩
  · rintro ⟨k, hk⟩
    have hlt := lt_of_bit hk
    rw [bit] at hk
    have hi : k / w < ws.length := Nat.div_lt_of_lt_mul hlt
    rw [List.getD_eq_getElem _ _ hi] at hk
    refine ⟨_, List.getElem_mem hi, bne_iff_ne.mpr fun hzero => ?_⟩
    rw [hzero, BitVec.getMsbD_zero] at hk
    cases hk

theorem cpopNatRec_eq (x : BitVec w) (n : Nat) :
    x.cpopNatRec n 0 = (List.range n).countP fun k => x.getLsbD k := by
  induction n with
  | zero => rfl
  | succ n ih =>
      rw [BitVec.cpopNatRec_succ, BitVec.cpopNatRec_add, ih, List.range_succ, List.countP_append]
      cases h : x.getLsbD n <;> simp [h]

/-- The bits of a word that are set, counted from the other side. -/
theorem toNat_cpop (x : BitVec w) : x.cpop.toNat = (List.range w).countP fun k => x.getMsbD k := by
  rw [← BitVec.cpop_reverse, BitVec.toNat_cpop, cpopNatRec_eq]
  simp only [BitVec.getLsbD_reverse]

theorem sum_cpop (ws : List (BitVec w)) :
    (ws.map fun x => x.cpop.toNat).sum = (List.range (w * ws.length)).countP fun k => bit ws k := by
  induction ws with
  | nil => rfl
  | cons x ws ih =>
      have hfirst : (List.range w).countP (fun k => bit (x :: ws) k) =
          (List.range w).countP fun k => x.getMsbD k := by
        refine List.countP_congr fun k hk => ?_
        rw [bit_cons, if_pos (List.mem_range.mp hk)]
      have hrest : ((fun k => bit (x :: ws) k) ∘ fun k => w + k) = fun k => bit ws k := by
        funext k
        rw [Function.comp_apply, bit_cons, if_neg (Nat.not_lt.mpr (Nat.le_add_right w k)),
          Nat.add_sub_cancel_left]
      rw [List.map_cons, List.sum_cons, List.length_cons, Nat.mul_succ, Nat.add_comm (w * ws.length) w,
        List.range_add, List.countP_append, List.countP_map, hrest, hfirst, ih, toNat_cpop]

theorem clz_lt (hx : x ≠ 0#w) : x.clz.toNat < w := by
  have hlt := BitVec.lt_def.mp (BitVec.clz_lt_iff_ne_zero.mpr hx)
  rw [BitVec.natCast_eq_ofNat, BitVec.toNat_ofNat, Nat.mod_eq_of_lt Nat.lt_two_pow_self] at hlt
  exact hlt

theorem getMsbD_clz (hx : x ≠ 0#w) : x.getMsbD x.clz.toNat = true := by
  have hlt := clz_lt hx
  rw [BitVec.getMsbD_eq_getLsbD, decide_eq_true hlt, Bool.true_and]
  exact BitVec.getLsbD_true_clz_of_ne_zero (Nat.zero_lt_of_lt hlt) hx

theorem getMsbD_of_lt_clz (hj : j < x.clz.toNat) : x.getMsbD j = false := by
  rcases Nat.lt_or_ge j w with hlt | hge
  · have hle : x.clz.toNat ≤ w := by
      have hle := BitVec.le_def.mp (@BitVec.clz_le w x)
      rw [BitVec.natCast_eq_ofNat, BitVec.toNat_ofNat, Nat.mod_eq_of_lt Nat.lt_two_pow_self] at hle
      exact hle
    have hfalse := @BitVec.getLsbD_false_of_clzAuxRec w (w - 1) x
      (fun i hi => BitVec.getLsbD_of_ge x i (by omega)) (x.clz.toNat - 1 - j)
    have hindex : w - 1 - j = w - (x.clzAuxRec (w - 1)).toNat + (x.clz.toNat - 1 - j) := by
      rw [show x.clzAuxRec (w - 1) = x.clz from rfl]
      omega
    rw [BitVec.getMsbD_eq_getLsbD, decide_eq_true hlt, Bool.true_and, hindex]
    exact hfalse
  · exact BitVec.getMsbD_of_ge x j hge

/-- How many bits are set before the first one that is not. -/
theorem clz_not_eq_iff (hn : n < w) : (~~~x).clz.toNat = n ↔
    (∀ j < n, x.getMsbD j = true) ∧ x.getMsbD n = false := by
  have hnot : ∀ {j}, j < w → (~~~x).getMsbD j = !x.getMsbD j := by
    intro j hj
    rw [BitVec.getMsbD_not, decide_eq_true hj, Bool.true_and]
  have hne : (∃ j < w, x.getMsbD j = false) → ~~~x ≠ 0#w := by
    rintro ⟨j, hj, hfalse⟩ hzero
    have hbit := hnot hj
    rw [hzero, BitVec.getMsbD_zero, hfalse] at hbit
    cases hbit
  constructor
  · rintro rfl
    refine ⟨fun j hj => ?_, ?_⟩
    · have hbit := hnot (hj.trans hn)
      rw [getMsbD_of_lt_clz hj] at hbit
      rw [eq_comm, Bool.not_eq_false'] at hbit
      exact hbit
    · have hzero : ~~~x ≠ 0#w := by
        intro hzero
        have hw := BitVec.clz_eq_iff_eq_zero.mpr hzero
        rw [hw, BitVec.natCast_eq_ofNat, BitVec.toNat_ofNat, Nat.mod_eq_of_lt Nat.lt_two_pow_self] at hn
        exact Nat.lt_irrefl w hn
      have hbit := hnot hn
      rw [getMsbD_clz hzero] at hbit
      rw [eq_comm, Bool.not_eq_true'] at hbit
      exact hbit
  · rintro ⟨hones, hfalse⟩
    have hzero := hne ⟨n, hn, hfalse⟩
    have hbit := hnot (clz_lt hzero)
    rw [getMsbD_clz hzero] at hbit
    rcases Nat.lt_trichotomy (~~~x).clz.toNat n with hlt | heq | hgt
    · rw [hones _ hlt] at hbit
      cases hbit
    · exact heq
    · have hlast := getMsbD_of_lt_clz hgt
      rw [hnot hn, hfalse] at hlast
      cases hlast

/-! ### Pieces of words -/

/-- A word as narrower words. -/
def pieces (v : Nat) (x : BitVec w) : List (BitVec v) :=
  (List.range (w / v)).map fun j => (x >>> (w - v * (j + 1))).setWidth v

theorem length_pieces (x : BitVec w) : (pieces v x).length = w / v := by
  rw [pieces, List.length_map, List.length_range]

theorem bit_pieces (h : v ∣ w) (x : BitVec w) (k : Nat) : bit (pieces v x) k = x.getMsbD k := by
  obtain ⟨n, rfl⟩ := h
  by_cases hk : k < v * n
  · have hv : 0 < v := Nat.pos_of_ne_zero fun hzero => by
      rw [hzero, Nat.zero_mul] at hk
      exact Nat.not_lt_zero k hk
    have hi : k / v < n := Nat.div_lt_of_lt_mul hk
    have hj : k % v < v := Nat.mod_lt k hv
    have hlength : k / v < (pieces v x).length := by
      rw [length_pieces, Nat.mul_div_cancel_left n hv]
      exact hi
    have hle : v * (k / v + 1) ≤ v * n := Nat.mul_le_mul_left v hi
    have hk' : v * (k / v) + k % v = k := Nat.div_add_mod k v
    rw [Nat.mul_succ] at hle
    have hindex : v * n - v * (k / v + 1) + (v - 1 - k % v) = v * n - 1 - k := by
      rw [Nat.mul_succ]
      omega
    rw [bit, List.getD_eq_getElem _ _ hlength]
    simp only [pieces, List.getElem_map, List.getElem_range]
    rw [BitVec.getMsbD_eq_getLsbD, BitVec.getMsbD_eq_getLsbD, BitVec.getLsbD_setWidth,
      BitVec.getLsbD_ushiftRight, hindex, decide_eq_true hj, decide_eq_true hk,
      decide_eq_true (show v - 1 - k % v < v by omega), Bool.true_and]
  · rw [BitVec.getMsbD_of_ge x k (Nat.le_of_not_lt hk)]
    refine bit_of_le ?_
    rw [length_pieces]
    exact (Nat.mul_div_le _ _).trans (Nat.le_of_not_lt hk)

/-- **The pieces of words are the same bits.** -/
theorem bit_flatMap_pieces (h : v ∣ w) : bit (ws.flatMap (pieces v)) k = bit ws k := by
  induction ws generalizing k with
  | nil => rw [List.flatMap_nil, bit_nil, bit_nil]
  | cons x ws ih =>
      rw [List.flatMap_cons, bit_append, bit_cons, length_pieces, Nat.mul_div_cancel' h, ih, bit_pieces h]

theorem pieces_injective (h : v ∣ w) {x y : BitVec w} (heq : pieces v x = pieces v y) : x = y := by
  apply BitVec.eq_of_getMsbD_eq
  intro k _
  rw [← bit_pieces h x k, heq, bit_pieces h]

theorem pieces_append {u : Nat} (hw : v ∣ w) (hu : v ∣ u) (x : BitVec w) (y : BitVec u) :
    pieces v (x ++ y) = pieces v x ++ pieces v y := by
  apply ext
  · rw [List.length_append, length_pieces, length_pieces, length_pieces, Nat.add_div_of_dvd_right hw]
  · intro k _
    rw [bit_pieces (Nat.dvd_add hw hu), bit_append, length_pieces, Nat.mul_div_cancel' hw, bit_pieces hw,
      bit_pieces hu, BitVec.getMsbD_append]
    split
    · rw [if_neg (by omega)]
    · rw [if_pos (by omega)]

theorem ofNat_append (w u n : Nat) :
    BitVec.ofNat (w + u) n = BitVec.ofNat w (n / 2 ^ u) ++ BitVec.ofNat u n := by
  apply BitVec.eq_of_toNat_eq
  rw [BitVec.toNat_append, BitVec.toNat_ofNat, BitVec.toNat_ofNat, BitVec.toNat_ofNat,
    ← Nat.shiftLeft_add_eq_or_of_lt (Nat.mod_lt _ (Nat.two_pow_pos u)), Nat.shiftLeft_eq, Nat.pow_add,
    Nat.mul_comm (2 ^ w), Nat.mod_mul, Nat.add_comm, Nat.mul_comm]

end PackedBits
