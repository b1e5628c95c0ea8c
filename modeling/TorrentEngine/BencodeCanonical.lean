import TorrentEngine.BencodeEncode

/-! The accepted strings form a prefix code, and each differs from the encoding of its own tree at most in
the order of the keys of its dictionaries. -/

namespace TorrentEngine.Bencode

open OrderedEntries Decimal

/-! ### Prefix code -/

/-- A derived string is read off the front of the source, whatever follows it. -/
theorem any_append {w : List Byte} {d : Data} (h : Encodes 0 w d) (t : List Byte) {depth : Nat}
    (hdepth : w.length ≤ depth) :
    Decode.any depth ⟨w ++ t, 0⟩ = (some d, ⟨w ++ t, w.length⟩) := by
  have hany := any_complete depth ⟨w ++ t, 0⟩ w t d h rfl hdepth
  rwa [Source.advance, Nat.zero_add] at hany

/-- No derived string goes on as another one. -/
theorem Encodes.append_inj {w w' t t' : List Byte} {d d' : Data} (h : Encodes 0 w d)
    (h' : Encodes 0 w' d') (happend : w ++ t = w' ++ t') : w = w' ∧ d = d' := by
  have hany := any_append h t (Nat.le_max_left w.length w'.length)
  have hany' := any_append h' t' (Nat.le_max_right w.length w'.length)
  rw [happend, hany'] at hany
  obtain ⟨hd, hsource⟩ := Prod.mk.inj hany
  refine ⟨(List.append_inj happend ?_).1, (Option.some.inj hd).symm⟩
  exact (Source.mk.inj hsource).2.symm

/-- An accepted string is never a proper prefix of another: with anything after it it is rejected, though
`any` reads it off the front with the same result, and a string cut short is rejected. -/
theorem input_prefix_code (s : List Byte) (d : Data) (hs : Decode.input s = some d) :
    (∀ t, t ≠ [] → Decode.input (s ++ t) = none) ∧
      (∀ t depth, s.length ≤ depth →
        Decode.any depth ⟨s ++ t, 0⟩ = (some d, ⟨s ++ t, s.length⟩)) ∧
      ∀ p, p <+: s → p ≠ s → Decode.input p = none := by
  have hencodes := input_eq_some.mp hs
  refine ⟨?_, fun t depth => any_append hencodes t, ?_⟩
  · intro t ht
    rw [Option.eq_none_iff_forall_ne_some]
    intro d' hd'
    have hwhole : s ++ t = (s ++ t) ++ [] := (List.append_nil _).symm
    have hcut := (hencodes.append_inj (input_eq_some.mp hd') hwhole).1
    exact ht (List.append_right_eq_self.mp hcut.symm)
  · rintro p ⟨t, rfl⟩ hproper
    rw [Option.eq_none_iff_forall_ne_some]
    intro d' hd'
    have hwhole : p ++ t = (p ++ t) ++ [] := (List.append_nil _).symm
    exact hproper ((input_eq_some.mp hd').append_inj hencodes hwhole).1

/-- `li0ee`, whose integer and whose own end are both marked by the first delimiter after them. -/
theorem input_prefix_code_nested :
    let s := [ascii 'l', ascii 'i', ascii '0', ascii 'e', ascii 'e']
    Decode.input s = some (.list [.integer 0 ⟨1, 3⟩] ⟨0, 5⟩) ∧
      Decode.input (s ++ [ascii 'e']) = none ∧ Decode.input (s.take 4) = none := by
  intro s
  have hinteger : Encodes 1 [ascii 'i', ascii '0', ascii 'e'] (.integer 0 ⟨1, 3⟩) :=
    @Encodes.integer 1 [ascii '0'] 0 .zero
  have hs : Decode.input s = some (.list [.integer 0 ⟨1, 3⟩] ⟨0, 5⟩) :=
    input_eq_some.mpr (.list (.cons hinteger .nil))
  obtain ⟨hjunk, -, hcut⟩ := input_prefix_code s _ hs
  exact ⟨hs, hjunk _ (by decide), hcut _ (List.take_prefix 4 s) (by decide)⟩

theorem Derives.append_inj {w w' t t' : List Byte} {v v' : Value} (h : Derives w v)
    (h' : Derives w' v') (happend : w ++ t = w' ++ t') : w = w' ∧ v = v' := by
  obtain ⟨d, hd, rfl⟩ := h.encodes 0
  obtain ⟨d', hd', rfl⟩ := h'.encodes 0
  obtain ⟨hw, rfl⟩ := hd.append_inj hd' happend
  exact ⟨hw, rfl⟩

theorem Derives.unique {w : List Byte} {v v' : Value} (h : Derives w v) (h' : Derives w v') :
    v = v' :=
  (h.append_inj h' (Eq.refl (w ++ []))).2

theorem DerivesString.append_inj {k k' t t' : List Byte} {s s' : ByteString} (h : DerivesString k s)
    (h' : DerivesString k' s') (happend : k ++ t = k' ++ t') : k = k' ∧ s = s' := by
  obtain ⟨hk, hs⟩ := (Derives.string h).append_inj (.string h') happend
  exact ⟨hk, Value.string.inj hs⟩

theorem DerivesItems.nil_left {body : List Byte} {vs : List Value} (h : DerivesItems body vs)
    (hbody : body = []) : vs = [] := by
  cases h with
  | nil => rfl
  | cons hv _ =>
      obtain ⟨d, hd, -⟩ := hv.encodes 0
      have htwo := hd.two_le_length
      rw [(List.append_eq_nil_iff.mp hbody).1] at htwo
      exact absurd htwo (by decide)

theorem DerivesPairs.nil_left {body : List Byte} {pairs : List (ByteString × Value)}
    (h : DerivesPairs body pairs) (hbody : body = []) : pairs = [] := by
  cases h with
  | nil => rfl
  | cons hkey _ _ =>
      have htwo := hkey.two_le_length
      rw [(List.append_eq_nil_iff.mp (List.append_eq_nil_iff.mp hbody).1).1] at htwo
      exact absurd htwo (by decide)

/-- The contents of a list are read in one way. -/
theorem DerivesItems.unique {body body' : List Byte} {vs vs' : List Value}
    (h : DerivesItems body vs) (h' : DerivesItems body' vs') (hbody : body = body') : vs = vs' := by
  induction vs generalizing body body' vs' with
  | nil =>
      cases h
      exact (h'.nil_left hbody.symm).symm
  | cons v vs ih =>
      cases h' with
      | nil => exact h.nil_left hbody
      | cons hv' hvs' =>
          cases h with
          | cons hv hvs =>
              obtain ⟨hw, rfl⟩ := hv.append_inj hv' hbody
              rw [hw, List.append_cancel_left_eq] at hbody
              rw [ih hvs hvs' hbody]

/-- The contents of a dictionary are read in one way. -/
theorem DerivesPairs.unique {body body' : List Byte} {pairs pairs' : List (ByteString × Value)}
    (h : DerivesPairs body pairs) (h' : DerivesPairs body' pairs') (hbody : body = body') :
    pairs = pairs' := by
  induction pairs generalizing body body' pairs' with
  | nil =>
      cases h
      exact (h'.nil_left hbody.symm).symm
  | cons pair pairs ih =>
      cases h' with
      | nil => exact h.nil_left hbody
      | cons hkey' hv' hpairs' =>
          cases h with
          | cons hkey hv hpairs =>
              rw [List.append_assoc, List.append_assoc] at hbody
              obtain ⟨hk, rfl⟩ := hkey.append_inj hkey' hbody
              rw [hk, List.append_cancel_left_eq] at hbody
              obtain ⟨hw, rfl⟩ := hv.append_inj hv' hbody
              rw [hw, List.append_cancel_left_eq] at hbody
              rw [ih hpairs hpairs' hbody]

/-! ### One spelling for each leaf -/

theorem Length.eq_print {len : List Byte} {size : Nat} (h : Length len size) : len = print size := by
  cases h with
  | zero => rfl
  | positive hds => exact hds.print_value.symm

theorem Numeral.eq_toDecimal {num : List Byte} {n : Int} (h : Numeral num n) : num = toDecimal n := by
  cases h with
  | zero => rfl
  | positive hds =>
      rw [toDecimal, if_neg (by omega), Int.natAbs_natCast, hds.print_value]
  | @negative ds hds =>
      have hpos := hds.value_pos
      rw [toDecimal, if_pos (by omega), Int.natAbs_neg, Int.natAbs_natCast, hds.print_value]
      rfl

theorem DerivesString.eq_encode {k : List Byte} {key : ByteString} (h : DerivesString k key) :
    k = Encoders.string key := by
  obtain ⟨len, hlen, rfl⟩ := h
  rw [Encoders.string, toDecimal, if_neg (by omega), Int.natAbs_natCast, hlen.eq_print]

/-! ### The length of an encoding -/

namespace Value

/-- What `dictionary` writes for a pair. -/
def encodePair (pair : ByteString × Value) : List Byte := Encoders.string pair.1 ++ encode pair.2

theorem encode_list (items : List Value) :
    encode (.list items) = ascii 'l' :: (items.map encode).flatten ++ [ascii 'e'] := by
  rw [encode, encodeItems_eq_map, Encoders.list]

/-- The pairs of a dictionary that is sorted are written as they come. -/
theorem encode_dictionary {entries : List (ByteString × Value)} (hsorted : Sorted entries) :
    encode (.dictionary entries) =
      ascii 'd' :: (entries.map encodePair).flatten ++ [ascii 'e'] := by
  have hvalues : Sorted (mapValues encode entries) := sorted_mapValues.mpr hsorted
  have hsort : sort (mapValues encode entries) = mapValues encode entries :=
    (sort_sorted hvalues.nodup_keys).eq_of_perm hvalues (sort_perm _)
  rw [encode, encodePairs_eq_mapValues, Encoders.dictionary, hsort, mapValues, List.map_map]
  rfl

end Value

open Value

theorem length_enclose {a b : List Byte} (c c' c'' : Byte) (h : a.length = b.length) :
    (c :: a ++ [c']).length = (c :: b ++ [c'']).length := by
  rw [List.length_append, List.length_append, List.length_cons, List.length_cons, h]
  rfl

mutual

/-- Encoding the tree of a derived string again keeps its length. -/
theorem Derives.length_encode {w : List Byte} {v : Value} :
    Derives w v → (encode v).length = w.length
  | .integer hnum => by rw [encode, Encoders.integer, ← hnum.eq_toDecimal]
  | .string hstr => by rw [encode, ← hstr.eq_encode]
  | .list hitems => by
      rw [encode_list]
      exact length_enclose _ _ _ hitems.length_encode
  | .dictionary hpairs hnodup hperm hsorted => by
      rw [encode_dictionary hsorted]
      apply length_enclose
      rw [(hperm.map encodePair).flatten.length_eq]
      exact hpairs.length_encode

theorem DerivesItems.length_encode {body : List Byte} {vs : List Value} :
    DerivesItems body vs → (vs.map encode).flatten.length = body.length
  | .nil => rfl
  | .cons hv hvs => by
      rw [List.map_cons, List.flatten_cons, List.length_append, List.length_append,
        hv.length_encode, hvs.length_encode]

theorem DerivesPairs.length_encode {body : List Byte} {pairs : List (ByteString × Value)} :
    DerivesPairs body pairs → (pairs.map encodePair).flatten.length = body.length
  | .nil => rfl
  | .cons hkey hv hpairs => by
      rw [List.map_cons, List.flatten_cons, List.length_append, List.length_append,
        List.length_append, hpairs.length_encode, encodePair, List.length_append,
        hv.length_encode, ← hkey.eq_encode]

end

/-! ### The tree of an encoding -/

theorem derivesItems_of_forall {vs : List Value} (h : ∀ v ∈ vs, Derives (encode v) v) :
    DerivesItems (vs.map encode).flatten vs := by
  induction vs with
  | nil => exact .nil
  | cons v vs ih =>
      rw [List.forall_mem_cons] at h
      exact .cons h.1 (ih h.2)

theorem derivesPairs_of_forall {pairs : List (ByteString × Value)}
    (h : ∀ pair ∈ pairs, Derives (encode pair.2) pair.2) :
    DerivesPairs (pairs.map encodePair).flatten pairs := by
  induction pairs with
  | nil => exact .nil
  | cons pair pairs ih =>
      rw [List.forall_mem_cons] at h
      exact .cons (derivesString_encode pair.1) h.1 (ih h.2)

mutual

/-- The tree of a derived string is the tree of its own encoding. -/
theorem Derives.derives_encode {w : List Byte} {v : Value} : Derives w v → Derives (encode v) v
  | .integer _ => .integer (numeral_toDecimal _)
  | .string _ => .string (derivesString_encode _)
  | .list hitems => by
      rw [encode_list]
      exact .list (derivesItems_of_forall hitems.derives_encode)
  | .dictionary hpairs hnodup hperm hsorted => by
      rw [encode_dictionary hsorted]
      refine .dictionary (derivesPairs_of_forall ?_) hsorted.nodup_keys (.refl _) hsorted
      exact fun pair hmem => hpairs.derives_encode pair (hperm.mem_iff.mp hmem)

theorem DerivesItems.derives_encode {body : List Byte} {vs : List Value} :
    DerivesItems body vs → ∀ v ∈ vs, Derives (encode v) v
  | .nil => by simp
  | .cons hv hvs => List.forall_mem_cons.mpr ⟨hv.derives_encode, hvs.derives_encode⟩

theorem DerivesPairs.derives_encode {body : List Byte} {pairs : List (ByteString × Value)} :
    DerivesPairs body pairs → ∀ pair ∈ pairs, Derives (encode pair.2) pair.2
  | .nil => by simp
  | .cons _ hv hpairs => List.forall_mem_cons.mpr ⟨hv.derives_encode, hpairs.derives_encode⟩

end

/-! ### The order of the keys -/

/-- The keys of a dictionary of the byte string, at any depth, in the order they stand there. -/
inductive KeysIn : List Byte → List ByteString → Prop
  | here {body : List Byte} {pairs : List (ByteString × Value)} : DerivesPairs body pairs →
      KeysIn (ascii 'd' :: body ++ [ascii 'e']) (keys pairs)
  | item {before w after : List Byte} {vs vs' : List Value} {v : Value} {ks : List ByteString} :
      DerivesItems before vs → Derives w v → DerivesItems after vs' → KeysIn w ks →
      KeysIn (ascii 'l' :: (before ++ (w ++ after)) ++ [ascii 'e']) ks
  | entry {before k w after : List Byte} {pairs pairs' : List (ByteString × Value)}
      {key : ByteString} {v : Value} {ks : List ByteString} :
      DerivesPairs before pairs → DerivesString k key → Derives w v → DerivesPairs after pairs' →
      KeysIn w ks → KeysIn (ascii 'd' :: (before ++ (k ++ w ++ after)) ++ [ascii 'e']) ks

/-- Every dictionary of the byte string has its keys in strictly ascending order. -/
def KeysAscend (s : List Byte) : Prop := ∀ ks, KeysIn s ks → ks.Pairwise (· < ·)

theorem DerivesItems.append {before after : List Byte} {vs vs' : List Value}
    (h : DerivesItems before vs) (h' : DerivesItems after vs') :
    DerivesItems (before ++ after) (vs ++ vs') := by
  induction vs generalizing before with
  | nil =>
      cases h
      exact h'
  | cons v vs ih =>
      cases h with
      | cons hv hvs =>
          rw [List.append_assoc]
          exact .cons hv (ih hvs)

theorem DerivesPairs.append {before after : List Byte} {pairs pairs' : List (ByteString × Value)}
    (h : DerivesPairs before pairs) (h' : DerivesPairs after pairs') :
    DerivesPairs (before ++ after) (pairs ++ pairs') := by
  induction pairs generalizing before with
  | nil =>
      cases h
      exact h'
  | cons pair pairs ih =>
      cases h with
      | cons hkey hv hpairs =>
          rw [List.append_assoc]
          exact .cons hkey hv (ih hpairs)

mutual

/-- With ascending keys the tree is encoded as the string it came from. -/
theorem Derives.encode_eq {w : List Byte} {v : Value} :
    Derives w v → KeysAscend w → encode v = w
  | .integer hnum, _ => by rw [encode, Encoders.integer, ← hnum.eq_toDecimal]
  | .string hstr, _ => by rw [encode, ← hstr.eq_encode]
  | .list hitems, hascend => by
      rw [encode_list, hitems.encode_eq .nil fun ks hks => hascend ks hks]
  | .dictionary hpairs hnodup hperm hsorted, hascend => by
      have hwritten : Sorted _ := pairwise_keys.mp (hascend _ (.here hpairs))
      rw [encode_dictionary hsorted, hsorted.eq_of_perm hwritten hperm,
        hpairs.encode_eq .nil fun ks hks => hascend ks hks]

/-- `before` is what stands in the list before these items. -/
theorem DerivesItems.encode_eq {before body : List Byte} {us vs : List Value} :
    DerivesItems body vs → DerivesItems before us →
      KeysAscend (ascii 'l' :: (before ++ body) ++ [ascii 'e']) → (vs.map encode).flatten = body
  | .nil, _, _ => rfl
  | .cons hv hvs, hbefore, hascend => by
      have hw := hv.encode_eq fun ks hks => hascend ks (.item hbefore hv hvs hks)
      have hws := hvs.encode_eq (hbefore.append (.cons hv .nil))
        (by rwa [List.append_nil, List.append_assoc])
      rw [List.map_cons, List.flatten_cons, hw, hws]

theorem DerivesPairs.encode_eq {before body : List Byte} {us pairs : List (ByteString × Value)} :
    DerivesPairs body pairs → DerivesPairs before us →
      KeysAscend (ascii 'd' :: (before ++ body) ++ [ascii 'e']) →
      (pairs.map encodePair).flatten = body
  | .nil, _, _ => rfl
  | .cons hkey hv hpairs, hbefore, hascend => by
      have hw := hv.encode_eq fun ks hks => hascend ks (.entry hbefore hkey hv hpairs hks)
      have hws := hpairs.encode_eq (hbefore.append (.cons hkey hv .nil))
        (by rwa [List.append_nil, List.append_assoc])
      rw [List.map_cons, List.flatten_cons, encodePair, hw, hws, ← hkey.eq_encode]

end

theorem Derives.dictionary_pairs {body : List Byte} {v : Value}
    (h : Derives (ascii 'd' :: body ++ [ascii 'e']) v) :
    ∃ pairs entries, v = .dictionary entries ∧ DerivesPairs body pairs ∧ entries.Perm pairs ∧
      Sorted entries := by
  generalize hw : ascii 'd' :: body ++ [ascii 'e'] = w at h
  cases h with
  | integer _ => exact absurd (List.cons.inj hw).1 (by decide)
  | string hstr =>
      obtain ⟨c, tail, rfl, hdigit⟩ := hstr.head_isDigit
      rw [← (List.cons.inj hw).1] at hdigit
      exact absurd hdigit (by decide)
  | list _ => exact absurd (List.cons.inj hw).1 (by decide)
  | @dictionary body' pairs entries hpairs _ hperm hsorted =>
      obtain rfl : body = body' := List.append_cancel_right (List.cons.inj hw).2
      exact ⟨pairs, entries, rfl, hpairs, hperm, hsorted⟩

/-- A dictionary that is encoded as it stands has its pairs in order, and each of them as it stands. -/
theorem Derives.pairs_sorted {body : List Byte} {v : Value} {pairs : List (ByteString × Value)}
    (h : Derives (ascii 'd' :: body ++ [ascii 'e']) v) (hpairs : DerivesPairs body pairs)
    (hencode : encode v = ascii 'd' :: body ++ [ascii 'e']) :
    Sorted pairs ∧ (pairs.map encodePair).flatten = body := by
  obtain ⟨pairs', entries, rfl, hpairs', hperm, hsorted⟩ := h.dictionary_pairs
  obtain rfl := hpairs'.unique hpairs rfl
  rw [encode_dictionary hsorted] at hencode
  have hbody : (entries.map encodePair).flatten = body :=
    List.append_cancel_right (List.cons.inj hencode).2
  have hentries : DerivesPairs (entries.map encodePair).flatten entries :=
    derivesPairs_of_forall fun pair hmem => hpairs'.derives_encode pair (hperm.mem_iff.mp hmem)
  obtain rfl := hentries.unique hpairs' hbody
  exact ⟨hsorted, hbody⟩

/-- A string that is the encoding of its tree has ascending keys. -/
theorem KeysIn.ascend {w : List Byte} {ks : List ByteString} (h : KeysIn w ks) :
    ∀ v, Derives w v → encode v = w → ks.Pairwise (· < ·) := by
  induction h with
  | here hpairs =>
      intro v hv hencode
      exact pairwise_keys.mpr (hv.pairs_sorted hpairs hencode).1
  | @item before w after vs vs' u ks hbefore hu hafter _ ih =>
      intro v hv hencode
      have hlist : Derives _ (.list (vs ++ u :: vs')) := .list (hbefore.append (.cons hu hafter))
      obtain rfl := hv.unique hlist
      rw [encode_list] at hencode
      have hbody := List.append_cancel_right (List.cons.inj hencode).2
      rw [List.map_append, List.flatten_append, List.map_cons, List.flatten_cons] at hbody
      have hrest := (List.append_inj hbody hbefore.length_encode).2
      exact ih u hu (List.append_inj hrest hu.length_encode).1
  | @entry before k w after pairs pairs' key u ks hbefore hkey hu hafter _ ih =>
      intro v hv hencode
      have hbody := (hv.pairs_sorted (hbefore.append (.cons hkey hu hafter)) hencode).2
      rw [List.map_append, List.flatten_append, List.map_cons, List.flatten_cons] at hbody
      have hrest := (List.append_inj hbody hbefore.length_encode).2
      rw [encodePair, ← hkey.eq_encode, List.append_assoc, List.append_assoc,
        List.append_cancel_left_eq] at hrest
      exact ih u hu (List.append_inj hrest hu.length_encode).1

/-- The tree of an accepted string is encoded with the length of the string, as the string itself exactly
when the keys of its dictionaries ascend, and is decoded again. -/
theorem input_canonical (s : List Byte) (d : Data) (hs : Decode.input s = some d) :
    (encode d.erase).length = s.length ∧ (encode d.erase = s ↔ KeysAscend s) ∧
      ∃ d', Decode.input (encode d.erase) = some d' ∧ d'.erase = d.erase := by
  have hderives := (input_eq_some.mp hs).derives
  refine ⟨hderives.length_encode, ⟨?_, hderives.encode_eq⟩,
    input_erase_iff.mpr hderives.derives_encode⟩
  intro hencode ks hks
  exact hks.ascend d.erase hderives hencode

/-- `d1:b0:1:a0:e`, whose keys descend. -/
theorem input_canonical_descending :
    let entry (key : Byte) : List Byte := [ascii '1', ascii ':', key, ascii '0', ascii ':']
    let s := ascii 'd' :: (entry (ascii 'b') ++ entry (ascii 'a')) ++ [ascii 'e']
    ¬ KeysAscend s ∧
      ∃ d, Decode.input s = some d ∧ (encode d.erase).length = 12 ∧ encode d.erase ≠ s := by
  intro entry s
  let pair (key : Byte) : ByteString × Value := (⟨[key], by simp⟩, .string .empty)
  have hentry : ∀ key, DerivesPairs (entry key) [pair key] := by
    intro key
    have hone : Length [ascii '1'] 1 := length_print 1
    exact @DerivesPairs.cons [ascii '1', ascii ':', key] [ascii '0', ascii ':'] [] _ _ []
      ⟨[ascii '1'], hone, rfl⟩ (.string ⟨[ascii '0'], .zero, rfl⟩) .nil
  have hpairs := (hentry (ascii 'b')).append (hentry (ascii 'a'))
  have hderives : Derives s (.dictionary [pair (ascii 'a'), pair (ascii 'b')]) :=
    .dictionary hpairs (by decide) (List.Perm.swap _ _ _) (by rw [Sorted, List.pairwise_pair]; decide)
  obtain ⟨d, hd, -⟩ := input_erase_iff.mpr hderives
  obtain ⟨hlength, hiff, -⟩ := input_canonical s d hd
  have hdescend : ¬ KeysAscend s := fun hascend => absurd (hascend _ (.here hpairs)) (by decide)
  exact ⟨hdescend, d, hd, hlength, fun heq => hdescend (hiff.mp heq)⟩

end TorrentEngine.Bencode
