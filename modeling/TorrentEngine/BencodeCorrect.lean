import TorrentEngine.BencodeGrammar
import Mathlib.Data.List.TakeWhile

/-! The decoders against the grammar. A decoder that succeeds has read a derived string off the front of
what was left to decode, and it succeeds whenever a derived string stands there. -/

namespace TorrentEngine.Bencode

open OrderedEntries Decimal

/-! ### Numbers -/

theorem fromChars_eq_some {str : List Byte} {n : Int64} :
    fromChars str = some (n, []) ↔ ∃ ds, ds ≠ [] ∧ (∀ b ∈ ds, isDigit b = true) ∧
      (str = ds ∧ n.toInt = value ds ∨ str = minus :: ds ∧ n.toInt = -(value ds : Int)) := by
  constructor
  · intro h
    rw [fromChars] at h
    by_cases hneg : str.head? = some minus
    · obtain ⟨ds, rfl⟩ := List.head?_eq_some_iff.mp hneg
      simp only [List.head?_cons, if_true, List.tail_cons, Option.ite_none_left_eq_some,
        Option.some.injEq, Prod.mk.injEq, List.dropWhile_eq_nil_iff] at h
      obtain ⟨hne, hrange, hn, hdigits⟩ := h
      rw [List.takeWhile_eq_self_iff.mpr hdigits] at hne hrange hn
      refine ⟨ds, hne, hdigits, Or.inr ⟨rfl, ?_⟩⟩
      rw [← hn, Int64.toInt_ofInt_of_le (by omega) (by omega)]
    · simp only [hneg, if_false, Option.ite_none_left_eq_some, Option.some.injEq, Prod.mk.injEq,
        List.dropWhile_eq_nil_iff] at h
      obtain ⟨hne, hrange, hn, hdigits⟩ := h
      rw [List.takeWhile_eq_self_iff.mpr hdigits] at hne hrange hn
      refine ⟨str, hne, hdigits, Or.inl ⟨rfl, ?_⟩⟩
      rw [← hn, Int64.toInt_ofInt_of_le (by omega) (by omega)]
  · rintro ⟨ds, hne, hdigits, ⟨rfl, hn⟩ | ⟨rfl, hn⟩⟩
    · have hhead : ¬ str.head? = some minus := fun h =>
        isDigit_ne_minus (hdigits _ (List.mem_of_mem_head? h)) rfl
      have hlow := n.le_toInt
      have hhigh := n.toInt_lt
      simp only [fromChars, hhead, if_false, List.takeWhile_eq_self_iff.mpr hdigits,
        List.dropWhile_eq_nil_iff.mpr hdigits, hne, ← hn, Int64.ofInt_toInt]
      rw [if_neg (by omega)]
    · have hlow := n.le_toInt
      have hhigh := n.toInt_lt
      simp only [fromChars, List.head?_cons, if_true, List.tail_cons, hne, if_false,
        List.takeWhile_eq_self_iff.mpr hdigits, List.dropWhile_eq_nil_iff.mpr hdigits, ← hn,
        Int64.ofInt_toInt]
      rw [if_neg (by omega)]

theorem getNumberIfValid_eq_some_fromChars {str : List Byte} {n : Int64} :
    getNumberIfValid str = some n ↔ str ≠ [] ∧
      ¬ (str.head? = some (ascii '0') ∧ str.length ≠ 1) ∧
      ¬ (2 ≤ str.length ∧ [ascii '-', ascii '0'] <+: str) ∧ fromChars str = some (n, []) := by
  rw [getNumberIfValid]
  simp only [Option.ite_none_left_eq_some]
  refine and_congr_right fun _ => and_congr_right fun _ => and_congr_right fun _ => ?_
  rcases fromChars str with _ | ⟨decode, _ | ⟨b, rest⟩⟩ <;> simp

/-- The numbers accepted are the numerals, each with its value. -/
theorem getNumberIfValid_eq_some {str : List Byte} {n : Int64} :
    getNumberIfValid str = some n ↔ Numeral str n.toInt := by
  rw [getNumberIfValid_eq_some_fromChars, fromChars_eq_some]
  constructor
  · rintro ⟨-, hzero, hminus, ds, hne, hdigits, ⟨rfl, hn⟩ | ⟨rfl, hn⟩⟩
    · by_cases hhead : str.head? = some digitZero
      · have hlen : str.length = 1 := by
          by_contra hlen
          exact hzero ⟨hhead, hlen⟩
        obtain ⟨tail, rfl⟩ := List.head?_eq_some_iff.mp hhead
        obtain rfl : tail = [] := List.eq_nil_of_length_eq_zero (by simpa using hlen)
        rw [hn]
        exact .zero
      · rw [hn]
        exact .positive ⟨hne, hdigits, hhead⟩
    · rw [hn]
      refine .negative ⟨hne, hdigits, ?_⟩
      intro hhead
      obtain ⟨tail, rfl⟩ := List.head?_eq_some_iff.mp hhead
      exact hminus ⟨by simp, tail, rfl⟩
  · intro h
    generalize hm : n.toInt = m at h
    cases h with
    | zero =>
        refine ⟨by simp, by simp, by simp, [digitZero], by simp, fun d hd => ?_, Or.inl ⟨rfl, rfl⟩⟩
        rw [List.mem_singleton.mp hd]
        rfl
    | positive hds =>
        refine ⟨hds.ne_nil, fun h => hds.head_ne h.1, ?_, str, hds.ne_nil, hds.digits,
          Or.inl ⟨rfl, rfl⟩⟩
        rintro ⟨-, tail, rfl⟩
        exact isDigit_ne_minus (hds.digits _ List.mem_cons_self) rfl
    | @negative ds hds =>
        refine ⟨by simp, ?_, ?_, ds, hds.ne_nil, hds.digits, Or.inr ⟨rfl, rfl⟩⟩
        · rintro ⟨hhead, -⟩
          rw [List.head?_cons] at hhead
          exact absurd hhead (by decide)
        · rintro ⟨-, tail, heq⟩
          obtain ⟨-, rfl⟩ := List.cons.inj heq
          exact hds.head_ne rfl

theorem Numeral.ne_nil {w : List Byte} {m : Int} (h : Numeral w m) : w ≠ [] := by
  cases h with
  | zero => simp
  | positive hds => exact hds.ne_nil
  | negative _ => simp

/-- A numeral has digits and minus signs only. -/
theorem Numeral.not_mem {w : List Byte} {m : Int} (h : Numeral w m) {c : Byte}
    (hdigit : isDigit c = false) (hminus : c ≠ minus) : c ∉ w := by
  intro hmem
  cases h with
  | zero =>
      rw [List.mem_singleton.mp hmem] at hdigit
      exact absurd hdigit (by decide)
  | positive hds => exact absurd (hds.digits c hmem) (by rw [hdigit]; decide)
  | negative hds =>
      rcases List.mem_cons.mp hmem with rfl | hmem
      · exact hminus rfl
      · exact absurd (hds.digits c hmem) (by rw [hdigit]; decide)

/-- A declared length is a numeral without a sign. -/
theorem Length.numeral {w : List Byte} {n : Nat} (h : Length w n) : Numeral w n := by
  cases h with
  | zero => exact .zero
  | positive hds => exact .positive hds

theorem Length.head_ne_minus {w : List Byte} {n : Nat} (h : Length w n) :
    w.head? ≠ some (ascii '-') := by
  cases h with
  | zero => decide
  | positive hds =>
      exact fun hhead => isDigit_ne_minus (hds.digits _ (List.mem_of_mem_head? hhead)) rfl

theorem Numeral.length {w : List Byte} {m : Int} (h : Numeral w m)
    (hhead : w.head? ≠ some (ascii '-')) : Length w m.toNat := by
  cases h with
  | zero => exact .zero
  | positive hds => exact .positive hds
  | negative _ => exact absurd rfl hhead

/-! ### Reading off the front -/

/-- Between two positions of the cursor the decoder has read `w`. -/
structure Reads (e : Source) (w : List Byte) (e' : Source) : Prop where
  undecoded : e.undecoded = w ++ e'.undecoded
  advanced : e' = e.advance w.length

theorem Source.undecoded_advance (e : Source) (n : Nat) :
    (e.advance n).undecoded = e.undecoded.drop n := by
  rw [Source.undecoded, Source.undecoded, List.drop_drop]
  rfl

theorem Source.reads_advance {e : Source} {w rest : List Byte} (h : e.undecoded = w ++ rest) :
    Reads e w (e.advance w.length) ∧ (e.advance w.length).undecoded = rest := by
  have hrest : (e.advance w.length).undecoded = rest := by
    rw [Source.undecoded_advance, h, List.drop_left]
  exact ⟨⟨by rw [hrest, h], rfl⟩, hrest⟩

theorem Source.advance_advance (e : Source) (m n : Nat) :
    (e.advance m).advance n = e.advance (m + n) := by
  rw [Source.advance, Source.advance, Source.advance, Nat.add_assoc]

theorem Source.advance_cursor_sub (e : Source) (n : Nat) :
    (e.advance n).cursor - e.cursor = n := Nat.add_sub_cancel_left _ _

theorem Reads.cursor {e e' : Source} {w : List Byte} (h : Reads e w e') :
    e'.cursor = e.cursor + w.length := by
  rw [h.advanced]
  rfl

theorem Reads.append {e e' e'' : Source} {w w' : List Byte} (h : Reads e w e')
    (h' : Reads e' w' e'') : Reads e (w ++ w') e'' := by
  refine ⟨by rw [h.undecoded, h'.undecoded, List.append_assoc], ?_⟩
  rw [h'.advanced, h.advanced, Source.advance_advance, List.length_append]

theorem findFirstOf_append {pre post : List Byte} {c : Byte} (hpre : c ∉ pre) :
    findFirstOf (pre ++ c :: post) c = some pre.length := by
  induction pre with
  | nil => simp [findFirstOf, List.findIdx?_cons]
  | cons b pre ih =>
      rw [List.mem_cons, not_or] at hpre
      have hne : (b == c) = false := beq_eq_false_iff_ne.mpr (Ne.symm hpre.1)
      rw [findFirstOf] at ih
      rw [findFirstOf, List.cons_append, List.findIdx?_cons, hne, ih hpre.2]
      rfl

theorem findFirstOf_eq_some {view : List Byte} {c : Byte} {k : Nat}
    (h : findFirstOf view c = some k) :
    ∃ pre post, view = pre ++ c :: post ∧ view.take k = pre ∧ view.drop (k + 1) = post ∧
      pre.length = k := by
  obtain ⟨hlt, hfound, -⟩ := List.findIdx?_eq_some_iff_getElem.mp h
  refine ⟨_, _, ?_, rfl, rfl, List.length_take_of_le hlt.le⟩
  rw [← eq_of_beq hfound, ← List.drop_eq_getElem_cons hlt, List.take_append_drop]

/-! ### Strings and integers -/

theorem string_sound {e e' : Source} {d : Data} (h : Decode.string e = (some d, e')) :
    ∃ w s, d = .string s ⟨e.cursor, w.length⟩ ∧ DerivesString w s ∧ Reads e w e' := by
  rw [Decode.string] at h
  split at h
  · cases h
  · split at h
    · cases h
    · rename_i separatorIndex hfind
      obtain ⟨len, post, hview, htake, hdrop, hindex⟩ := findFirstOf_eq_some hfind
      simp only [htake, hdrop] at h
      split at h
      · cases h
      · rename_i hhead
        split at h
        · cases h
        · rename_i declaredSize hnumber
          split at h
          · cases h
          · rename_i hremaining
            cases h
            have hlength := (getNumberIfValid_eq_some.mp hnumber).length hhead
            have hsize : (post.take declaredSize.toInt.toNat).length =
                declaredSize.toInt.toNat := by
              rw [List.length_take_of_le]
              rw [← hdrop, List.length_drop]
              omega
            have hread : e.undecoded = (len ++ ascii ':' :: post.take declaredSize.toInt.toNat) ++
                post.drop declaredSize.toInt.toNat := by
              rw [List.append_assoc, List.cons_append, List.take_append_drop, hview]
            have hwlen : (len ++ ascii ':' :: post.take declaredSize.toInt.toNat).length =
                separatorIndex + 1 + declaredSize.toInt.toNat := by
              rw [List.length_append, List.length_cons, hindex, hsize]
              omega
            have hlt : (post.take declaredSize.toInt.toNat).length < 2 ^ 63 := by
              have := declaredSize.toInt_lt
              omega
            refine ⟨_, ⟨post.take declaredSize.toInt.toNat, hlt⟩, ?_, ⟨len, ?_, rfl⟩, ?_⟩
            · rw [hwlen, Source.advance_cursor_sub]
            · rwa [ByteString.size, hsize]
            · rw [← hwlen]
              exact (Source.reads_advance hread).1

theorem string_complete {e : Source} {w rest : List Byte} {s : ByteString}
    (hw : DerivesString w s) (he : e.undecoded = w ++ rest) :
    Decode.string e = (some (.string s ⟨e.cursor, w.length⟩), e.advance w.length) := by
  obtain ⟨len, hlen, rfl⟩ := hw
  have hsep : findFirstOf e.undecoded (ascii ':') = some len.length := by
    rw [he, List.append_assoc, List.cons_append]
    exact findFirstOf_append (hlen.numeral.not_mem (by decide) (by decide))
  have hview : e.undecoded = len ++ ([ascii ':'] ++ (s.bytes ++ rest)) := by
    rw [he]
    simp
  have htake : e.undecoded.take len.length = len := by
    rw [hview, List.take_left]
  have hdrop : e.undecoded.drop (len.length + 1) = s.bytes ++ rest := by
    rw [hview, ← List.drop_drop, List.drop_left]
    rfl
  obtain ⟨n, hn⟩ : ∃ n : Int64, n.toInt = s.size :=
    ⟨Int64.ofInt s.size, Int64.toInt_ofInt_of_le (le_trans (by decide) (Int.natCast_nonneg _))
      (by exact_mod_cast s.size_lt)⟩
  have hnumber : getNumberIfValid len = some n := by
    rw [getNumberIfValid_eq_some, hn]
    exact hlen.numeral
  have hlength : e.undecoded.length = len.length + 1 + s.bytes.length + rest.length := by
    rw [hview]
    simp only [List.length_append, List.length_singleton]
    omega
  have hpos := hlen.length_pos
  have hstring : (e.undecoded.drop (len.length + 1)).take s.size = s.bytes := by
    rw [hdrop, ByteString.size, List.take_left]
  have hwlen : (len ++ ascii ':' :: s.bytes).length = len.length + 1 + s.size := by
    rw [List.length_append, List.length_cons, ByteString.size]
    omega
  simp only [Decode.string, hsep, htake, hnumber, hn, Int.toNat_natCast, hstring, hwlen,
    Source.advance_cursor_sub]
  rw [if_neg (by omega), if_neg hlen.head_ne_minus, if_neg (by rw [ByteString.size]; omega)]

theorem integer_sound {e e' : Source} {d : Data} (h : Decode.integer e = (some d, e')) :
    ∃ w, Encodes e.cursor w d ∧ Reads e w e' := by
  rw [Decode.integer] at h
  split at h
  · cases h
  · rename_i hhead
    obtain ⟨tail, hundecoded⟩ := List.head?_eq_some_iff.mp (not_not.mp hhead)
    have htail : (e.advance 1).undecoded = tail := by
      rw [Source.undecoded_advance, hundecoded]
      rfl
    simp only [htail] at h
    split at h
    · cases h
    · rename_i endIndex hfind
      obtain ⟨num, post, hview, htake, -, hindex⟩ := findFirstOf_eq_some hfind
      simp only [htake] at h
      split at h
      · cases h
      · split at h
        · cases h
        · rename_i decodeNumber hnumber
          cases h
          have hread : e.undecoded = (ascii 'i' :: num ++ [ascii 'e']) ++ post := by
            rw [hundecoded, hview]
            simp
          have hwlen : (ascii 'i' :: num ++ [ascii 'e']).length = 1 + (endIndex + 1) := by
            rw [List.length_append, List.length_cons, hindex, List.length_singleton]
            omega
          rw [Source.advance_advance, Source.advance_cursor_sub]
          refine ⟨_, ?_, by rw [← hwlen]; exact (Source.reads_advance hread).1⟩
          rw [show 1 + (endIndex + 1) = num.length + 2 by omega]
          exact .integer (getNumberIfValid_eq_some.mp hnumber)

theorem integer_complete {e : Source} {num rest : List Byte} {n : Int64}
    (hnum : Numeral num n.toInt) (he : e.undecoded = (ascii 'i' :: num ++ [ascii 'e']) ++ rest) :
    Decode.integer e = (some (.integer n ⟨e.cursor, num.length + 2⟩), e.advance (num.length + 2)) := by
  have hbody : (e.advance 1).undecoded = num ++ ascii 'e' :: rest := by
    rw [Source.undecoded_advance, he]
    simp
  have hhead : e.undecoded.head? = some (ascii 'i') := by
    rw [he]
    rfl
  have hend : findFirstOf (num ++ ascii 'e' :: rest) (ascii 'e') = some num.length :=
    findFirstOf_append (hnum.not_mem (by decide) (by decide))
  have hpos : num.length ≠ 0 := List.length_pos_iff.mpr hnum.ne_nil |>.ne'
  simp only [Decode.integer, hhead, ne_eq, not_true, if_false, hbody, hend, hpos, List.take_left,
    getNumberIfValid_eq_some.mpr hnum, Source.advance_advance, Source.advance_cursor_sub]
  rw [show 1 + (num.length + 1) = num.length + 2 by omega]

/-! ### Lists, dictionaries and nested values -/

/-- What the decoder returns is derived from what it read. -/
def Sound (decoder : Decoder) : Prop :=
  ∀ e d e', decoder e = (some d, e') → ∃ w, Encodes e.cursor w d ∧ Reads e w e'

/-- The decoder reads every derived string of at most `size` bytes. -/
def Complete (decoder : Decoder) (size : Nat) : Prop :=
  ∀ e w rest d, Encodes e.cursor w d → e.undecoded = w ++ rest → w.length ≤ size →
    decoder e = (some d, e.advance w.length)

theorem listLoop_sound {any : Decoder} (hany : Sound any) {turns : Nat} {list list' : List Data}
    {e e' : Source} (h : Decode.listLoop any turns list e = (some list', e')) :
    ∃ w ds, list' = list ++ ds ∧ EncodesItems e.cursor w ds ∧ Reads e w e' := by
  induction turns generalizing list e with
  | zero => cases h
  | succ turns ih =>
      rw [Decode.listLoop] at h
      split at h
      · cases h
        exact ⟨[], [], (List.append_nil _).symm, .nil, rfl, rfl⟩
      · split at h
        · cases h
        · rename_i bendecoded e₁ hfirst
          obtain ⟨w, hw, hread⟩ := hany _ _ _ hfirst
          obtain ⟨ws, ds, rfl, hws, hreads⟩ := ih h
          rw [hread.cursor] at hws
          refine ⟨w ++ ws, bendecoded :: ds, ?_, .cons hw hws, hread.append hreads⟩
          rw [List.append_assoc, List.singleton_append]

/-- A container is its header, its contents and the delimiter. -/
theorem Reads.enclose {e e' : Source} {header : Byte} {body : List Byte}
    (hhead : e.undecoded.head? = some header) (hbody : Reads (e.advance 1) body e')
    (hend : e'.undecoded.head? = some (ascii 'e')) :
    Reads e (header :: body ++ [ascii 'e']) (e'.advance 1) ∧
      (e'.advance 1).cursor - e.cursor = body.length + 2 := by
  obtain ⟨tail, htail⟩ := List.head?_eq_some_iff.mp hhead
  obtain ⟨tail', htail'⟩ := List.head?_eq_some_iff.mp hend
  have hheader := (@Source.reads_advance _ [header] tail htail).1
  have hdelimiter := (@Source.reads_advance _ [ascii 'e'] tail' htail').1
  have hread := (hheader.append hbody).append hdelimiter
  refine ⟨hread, ?_⟩
  have hcursor := hread.cursor
  simp only [List.length_append, List.length_singleton] at hcursor
  omega

theorem list_sound {any : Decoder} (hany : Sound any) : Sound (Decode.list any) := by
  intro e d e' h
  rw [Decode.list] at h
  split at h
  · cases h
  · rename_i hhead
    dsimp only at h
    split at h
    · cases h
    · split at h
      · cases h
      · rename_i list e₂ hloop
        split at h
        · cases h
        · rename_i hend
          cases h
          obtain ⟨body, ds, rfl, hitems, hread⟩ := listLoop_sound hany hloop
          obtain ⟨hreads, hsize⟩ := hread.enclose (not_not.mp hhead) (not_not.mp hend)
          refine ⟨_, ?_, hreads⟩
          rw [hsize]
          exact .list hitems

theorem dictionaryLoop_sound {any : Decoder} (hany : Sound any) {turns : Nat}
    {dictionary dictionary' : List (ByteString × Data)} {e e' : Source}
    (hsorted : Sorted dictionary)
    (h : Decode.dictionaryLoop any turns dictionary e = (some dictionary', e')) :
    ∃ w pairs, dictionary'.Perm (pairs ++ dictionary) ∧ Sorted dictionary' ∧
      EncodesPairs e.cursor w pairs ∧ Reads e w e' := by
  induction turns generalizing dictionary e with
  | zero => cases h
  | succ turns ih =>
      rw [Decode.dictionaryLoop] at h
      split at h
      · cases h
        exact ⟨[], [], List.Perm.refl _, hsorted, .nil, rfl, rfl⟩
      · split at h
        · rename_i key position e₁ hkey
          split at h
          · cases h
          · rename_i val e₂ hval
            split at h
            · cases h
            · rename_i dictionary₁ hemplace
              obtain ⟨k, s, hs, hk, hkread⟩ := string_sound hkey
              cases hs
              obtain ⟨w, hw, hwread⟩ := hany _ _ _ hval
              obtain ⟨ws, pairs, hperm, hsorted', hws, hreads⟩ :=
                ih (tryEmplace_sorted hsorted hemplace) h
              rw [hwread.cursor, hkread.cursor] at hws
              rw [hkread.cursor] at hw
              refine ⟨k ++ w ++ ws, (key, val) :: pairs, ?_, hsorted', .cons hk hw hws,
                (hkread.append hwread).append hreads⟩
              refine hperm.trans ((tryEmplace_perm hemplace).append_left pairs |>.trans ?_)
              exact List.perm_middle
        · cases h

theorem dictionary_sound {any : Decoder} (hany : Sound any) : Sound (Decode.dictionary any) := by
  intro e d e' h
  rw [Decode.dictionary] at h
  split at h
  · cases h
  · rename_i hhead
    dsimp only at h
    split at h
    · cases h
    · split at h
      · cases h
      · rename_i dictionary e₂ hloop
        split at h
        · cases h
        · rename_i hend
          cases h
          obtain ⟨body, pairs, hperm, hsorted, hpairs, hread⟩ :=
            dictionaryLoop_sound hany List.Pairwise.nil hloop
          obtain ⟨hreads, hsize⟩ := hread.enclose (not_not.mp hhead) (not_not.mp hend)
          rw [List.append_nil] at hperm
          refine ⟨_, ?_, hreads⟩
          rw [hsize]
          exact .dictionary hpairs ((keys_perm hperm).nodup_iff.mp hsorted.nodup_keys) hperm hsorted

theorem any_sound (depth : Nat) : Sound (Decode.any depth) := by
  induction depth with
  | zero =>
      intro e d e' h
      cases h
  | succ depth ih =>
      intro e d e' h
      simp only [Decode.any] at h
      split at h
      · cases h
      · split_ifs at h
        · exact integer_sound h
        · exact list_sound ih e d e' h
        · exact dictionary_sound ih e d e' h
        · obtain ⟨w, s, rfl, hw, hread⟩ := string_sound h
          exact ⟨w, .string hw, hread⟩

theorem DerivesString.head_isDigit {w : List Byte} {s : ByteString} (h : DerivesString w s) :
    ∃ c tail, w = c :: tail ∧ isDigit c = true := by
  obtain ⟨len, hlen, rfl⟩ := h
  generalize s.size = size at hlen
  cases hlen with
  | zero => exact ⟨_, _, rfl, by decide⟩
  | positive hds =>
      obtain ⟨c, tail, rfl⟩ := List.exists_cons_of_ne_nil hds.ne_nil
      exact ⟨c, _, rfl, hds.digits c List.mem_cons_self⟩

/-- No derived string starts with the delimiter. -/
theorem Encodes.head_ne {start : Nat} {w : List Byte} {d : Data} (h : Encodes start w d) :
    ∃ c tail, w = c :: tail ∧ c ≠ ascii 'e' := by
  cases h with
  | string hstr =>
      obtain ⟨c, tail, rfl, hc⟩ := hstr.head_isDigit
      exact ⟨c, tail, rfl, by rintro rfl; exact absurd hc (by decide)⟩
  | _ => exact ⟨_, _, rfl, by decide⟩

theorem listLoop_complete {any : Decoder} {size : Nat} (hany : Complete any size)
    {ds : List Data} {w rest : List Byte} {e : Source} {turns : Nat} {list : List Data}
    (hw : EncodesItems e.cursor w ds) (he : e.undecoded = w ++ ascii 'e' :: rest)
    (hsize : w.length ≤ size) (hturns : w.length < turns) :
    Decode.listLoop any turns list e = (some (list ++ ds), e.advance w.length) := by
  induction ds generalizing w e turns list with
  | nil =>
      cases hw
      obtain ⟨turns, rfl⟩ := Nat.exists_eq_succ_of_ne_zero hturns.ne'
      rw [Decode.listLoop, if_pos (Or.inr (by rw [he]; rfl)), List.append_nil]
      rfl
  | cons d ds ih =>
      cases hw with
      | @cons _ w ws _ _ hd hds =>
          obtain ⟨turns, rfl⟩ := Nat.exists_eq_succ_of_ne_zero (Nat.ne_zero_of_lt hturns)
          rw [List.append_assoc] at he
          rw [List.length_append] at hsize hturns
          have htwo := hd.two_le_length
          obtain ⟨hread, hrest⟩ := Source.reads_advance he
          obtain ⟨c, tail, hc, hne⟩ := hd.head_ne
          have hgo : ¬ (e.undecoded = [] ∨ e.undecoded.head? = some (ascii 'e')) := by
            rw [he, hc]
            simpa using hne
          rw [← hread.cursor] at hds
          rw [Decode.listLoop, if_neg hgo, hany e w _ d hd he (by omega)]
          dsimp only
          rw [ih hds hrest (by omega) (by omega), Source.advance_advance, List.length_append,
            List.append_assoc, List.singleton_append]

theorem dictionaryLoop_complete {any : Decoder} {size : Nat} (hany : Complete any size)
    {pairs : List (ByteString × Data)} {w rest : List Byte} {e : Source} {turns : Nat}
    {dictionary : List (ByteString × Data)} (hsorted : Sorted dictionary)
    (hnodup : (keys (dictionary ++ pairs)).Nodup)
    (hw : EncodesPairs e.cursor w pairs) (he : e.undecoded = w ++ ascii 'e' :: rest)
    (hsize : w.length ≤ size) (hturns : w.length < turns) :
    ∃ dictionary', Decode.dictionaryLoop any turns dictionary e =
        (some dictionary', e.advance w.length) ∧
      dictionary'.Perm (dictionary ++ pairs) ∧ Sorted dictionary' := by
  induction pairs generalizing w e turns dictionary with
  | nil =>
      cases hw
      obtain ⟨turns, rfl⟩ := Nat.exists_eq_succ_of_ne_zero hturns.ne'
      rw [Decode.dictionaryLoop, if_pos (Or.inr (by rw [he]; rfl)), List.append_nil]
      exact ⟨dictionary, rfl, List.Perm.refl _, hsorted⟩
  | cons pair pairs ih =>
      cases hw with
      | @cons _ k w ws key d _ hkey hd hds =>
          obtain ⟨turns, rfl⟩ := Nat.exists_eq_succ_of_ne_zero (Nat.ne_zero_of_lt hturns)
          rw [List.append_assoc, List.append_assoc] at he
          rw [List.length_append, List.length_append] at hsize hturns
          have htwo := hd.two_le_length
          obtain ⟨hkread, hkrest⟩ := Source.reads_advance he
          obtain ⟨hread, hrest⟩ := Source.reads_advance hkrest
          obtain ⟨c, tail, hc, hdigit⟩ := hkey.head_isDigit
          have hgo : ¬ (e.undecoded = [] ∨ e.undecoded.head? = some (ascii 'e')) := by
            rw [he, hc]
            have hne : c ≠ ascii 'e' := by
              rintro rfl
              exact absurd hdigit (by decide)
            simpa using hne
          rw [← hkread.cursor] at hd
          rw [← hkread.cursor, ← hread.cursor] at hds
          have hmem : key ∉ keys dictionary := by
            intro hmem
            rw [keys, List.map_append, List.nodup_append] at hnodup
            exact hnodup.2.2 key hmem key List.mem_cons_self rfl
          obtain ⟨dictionary₁, hemplace⟩ := @tryEmplace_isSome _ _ _ key d _ hmem
          have hperm₁ : (dictionary₁ ++ pairs).Perm (dictionary ++ (key, d) :: pairs) :=
            ((tryEmplace_perm hemplace).append_right pairs).trans List.perm_middle.symm
          obtain ⟨dictionary', hloop, hperm, hsorted'⟩ := ih (tryEmplace_sorted hsorted hemplace)
            ((keys_perm hperm₁).nodup_iff.mpr hnodup) hds hrest (by omega)
            (show ws.length < turns by omega)
          refine ⟨dictionary', ?_, hperm.trans hperm₁, hsorted'⟩
          rw [Decode.dictionaryLoop, if_neg hgo, string_complete hkey he]
          dsimp only
          rw [hany _ w _ d hd hkrest (by omega)]
          dsimp only
          rw [hemplace]
          dsimp only
          rw [hloop, Source.advance_advance, Source.advance_advance, List.length_append,
            List.length_append, Nat.add_assoc]

/-- How a container is read whose contents are. -/
theorem enclosed {e : Source} {header : Byte} {body rest : List Byte}
    (he : e.undecoded = (header :: body ++ [ascii 'e']) ++ rest) :
    e.undecoded.head? = some header ∧ (e.advance 1).undecoded = body ++ ascii 'e' :: rest ∧
      ((e.advance 1).advance body.length).undecoded = ascii 'e' :: rest ∧
      ((e.advance 1).advance body.length).advance 1 = e.advance (body.length + 2) ∧
      (e.advance 1).undecoded ≠ [] ∧ body.length < (e.advance 1).undecoded.length := by
  have hbody : (e.advance 1).undecoded = body ++ ascii 'e' :: rest := by
    rw [Source.undecoded_advance, he]
    simp
  refine ⟨by rw [he]; rfl, hbody, (Source.reads_advance hbody).2, ?_, ?_, ?_⟩
  · rw [Source.advance_advance, Source.advance_advance]
    congr 1
    omega
  · rw [hbody]
    simp
  · rw [hbody, List.length_append, List.length_cons]
    omega

theorem list_complete {any : Decoder} {size : Nat} (hany : Complete any size) {e : Source}
    {body rest : List Byte} {ds : List Data} (hbody : EncodesItems (e.cursor + 1) body ds)
    (he : e.undecoded = (ascii 'l' :: body ++ [ascii 'e']) ++ rest) (hsize : body.length ≤ size) :
    Decode.list any e =
      (some (.list ds ⟨e.cursor, body.length + 2⟩), e.advance (body.length + 2)) := by
  obtain ⟨hhead, hundecoded, hend, hadvance, hne, hturns⟩ := enclosed he
  have hloop : Decode.listLoop any (e.advance 1).undecoded.length [] (e.advance 1) =
      (some ds, (e.advance 1).advance body.length) :=
    listLoop_complete hany hbody hundecoded hsize hturns
  simp only [Decode.list, hhead, ne_eq, not_true, if_false, hne, hloop, hend, List.head?_cons,
    hadvance, Source.advance_cursor_sub]

theorem dictionary_complete {any : Decoder} {size : Nat} (hany : Complete any size) {e : Source}
    {body rest : List Byte} {pairs entries : List (ByteString × Data)}
    (hbody : EncodesPairs (e.cursor + 1) body pairs) (hnodup : (keys pairs).Nodup)
    (hperm : entries.Perm pairs) (hsorted : Sorted entries)
    (he : e.undecoded = (ascii 'd' :: body ++ [ascii 'e']) ++ rest) (hsize : body.length ≤ size) :
    Decode.dictionary any e =
      (some (.dictionary entries ⟨e.cursor, body.length + 2⟩), e.advance (body.length + 2)) := by
  obtain ⟨hhead, hundecoded, hend, hadvance, hne, hturns⟩ := enclosed he
  obtain ⟨dictionary, hloop, hdictperm, hdictsorted⟩ := @dictionaryLoop_complete any size hany pairs
    body rest (e.advance 1) _ [] List.Pairwise.nil hnodup hbody hundecoded hsize hturns
  obtain rfl : dictionary = entries := hdictsorted.eq_of_perm hsorted (hdictperm.trans hperm.symm)
  simp only [Decode.dictionary, hhead, ne_eq, not_true, if_false, hne, hloop, hend, List.head?_cons,
    hadvance, Source.advance_cursor_sub]

theorem any_complete (depth : Nat) : Complete (Decode.any depth) depth := by
  induction depth with
  | zero =>
      intro e w rest d hw he hsize
      have := hw.two_le_length
      omega
  | succ depth ih =>
      intro e w rest d hw he hsize
      cases hw with
      | @integer _ num n hnum =>
          have hhead : e.undecoded.head? = some (ascii 'i') := by
            rw [he]
            rfl
          simp only [Decode.any, hhead, if_true, integer_complete hnum he]
          simp
      | @string _ _ s hstr =>
          obtain ⟨c, tail, hc, hdigit⟩ := hstr.head_isDigit
          have hhead : e.undecoded.head? = some c := by
            rw [he, hc]
            rfl
          have hi : c ≠ ascii 'i' := by
            rintro rfl
            exact absurd hdigit (by decide)
          have hl : c ≠ ascii 'l' := by
            rintro rfl
            exact absurd hdigit (by decide)
          have hd : c ≠ ascii 'd' := by
            rintro rfl
            exact absurd hdigit (by decide)
          simp only [Decode.any, hhead, hi, hl, hd, if_false, string_complete hstr he]
      | @list _ body ds hitems =>
          have hwlen : (ascii 'l' :: body ++ [ascii 'e']).length = body.length + 2 := by
            rw [List.length_append, List.length_cons, List.length_singleton]
          have hlist := list_complete ih hitems he (by omega)
          rw [hwlen, ← hlist]
          simp only [Decode.any, (enclosed he).1]
          rfl
      | @dictionary _ body pairs entries hpairs hnodup hperm hsorted =>
          have hwlen : (ascii 'd' :: body ++ [ascii 'e']).length = body.length + 2 := by
            rw [List.length_append, List.length_cons, List.length_singleton]
          have hdictionary := dictionary_complete ih hpairs hnodup hperm hsorted he (by omega)
          rw [hwlen, ← hdictionary]
          simp only [Decode.any, (enclosed he).1]
          rfl

/-! ### The whole input -/

/-- A source is accepted when it is derived as a whole, with every value where it was read. -/
theorem input_eq_some {source : List Byte} {d : Data} :
    Decode.input source = some d ↔ Encodes 0 source d := by
  have hstart : (⟨source, 0⟩ : Source).undecoded = source := rfl
  constructor
  · intro h
    rw [Decode.input] at h
    split at h
    · rename_i resolve e' hany
      split at h
      · cases h
      · rename_i hcursor
        cases h
        obtain ⟨w, hw, hread⟩ := any_sound _ _ _ _ hany
        have hlength : w.length = source.length := by
          have := hread.cursor
          dsimp only at this
          omega
        have hprefix : w <+: source := ⟨e'.undecoded, by rw [← hread.undecoded, hstart]⟩
        obtain rfl : w = source := hprefix.eq_of_length hlength
        exact hw
    · cases h
  · intro h
    have hany := any_complete source.length ⟨source, 0⟩ source [] d h
      (by rw [hstart, List.append_nil]) le_rfl
    have hcursor : ((⟨source, 0⟩ : Source).advance source.length).cursor = source.length :=
      Nat.zero_add _
    simp only [Decode.input, hany, hcursor, ne_eq, not_true, if_false]

/-- The value returned is the tree of a derivation of the source. -/
theorem input_erase_iff {source : List Byte} {v : Value} :
    (∃ d, Decode.input source = some d ∧ d.erase = v) ↔ Derives source v := by
  constructor
  · rintro ⟨d, hd, rfl⟩
    exact (input_eq_some.mp hd).derives
  · intro h
    obtain ⟨d, hd, rfl⟩ := h.encodes 0
    exact ⟨d, input_eq_some.mpr hd, rfl⟩

/-- A source is accepted if and only if the grammar derives it as a whole, and then it has one
derivation, whose tree is the value returned. -/
theorem input_accepts_exactly_the_grammar (source : List Byte) :
    ((Decode.input source).isSome ↔ ∃ v, Derives source v) ∧
      ∀ d, Decode.input source = some d → ∀ v, Derives source v ↔ v = d.erase := by
  refine ⟨⟨?_, ?_⟩, ?_⟩
  · intro h
    obtain ⟨d, hd⟩ := Option.isSome_iff_exists.mp h
    exact ⟨d.erase, input_erase_iff.mp ⟨d, hd, rfl⟩⟩
  · rintro ⟨v, hv⟩
    obtain ⟨d, hd, -⟩ := input_erase_iff.mpr hv
    exact Option.isSome_iff_exists.mpr ⟨d, hd⟩
  · intro d hd v
    refine ⟨fun hv => ?_, fun hv => input_erase_iff.mp ⟨d, hd, hv.symm⟩⟩
    obtain ⟨d', hd', rfl⟩ := input_erase_iff.mpr hv
    rw [Option.some.inj (hd.symm.trans hd')]

end TorrentEngine.Bencode
