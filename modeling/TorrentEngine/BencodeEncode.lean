import TorrentEngine.BencodeCorrect

/-! `ben::encoders`, and the round trip: a tree encoded bottom-up, the pairs of each dictionary in any
order, is derived by the grammar and so decoded again. -/

namespace TorrentEngine.Bencode

open OrderedEntries Decimal

/-! ### The encoders -/

/-- `std::to_string` of an integer. -/
def toDecimal (value : Int) : List Byte :=
  if value < 0 then minus :: print value.natAbs else print value.natAbs

namespace Encoders

def integer (value : Int64) : List Byte := ascii 'i' :: toDecimal value.toInt ++ [ascii 'e']

def string (value : ByteString) : List Byte := toDecimal value.size ++ ascii ':' :: value.bytes

def list (items : List (List Byte)) : List Byte := ascii 'l' :: items.flatten ++ [ascii 'e']

/-- The pairs are sorted by key before they are written. -/
def dictionary (items : List (ByteString × List Byte)) : List Byte :=
  ascii 'd' :: ((sort items).map fun pair => string pair.1 ++ pair.2).flatten ++ [ascii 'e']

end Encoders

namespace Value

mutual

/-- A tree encoded bottom-up. -/
def encode : Value → List Byte
  | .integer n => Encoders.integer n
  | .string s => Encoders.string s
  | .list items => Encoders.list (encodeItems items)
  | .dictionary pairs => Encoders.dictionary (encodePairs pairs)

def encodeItems : List Value → List (List Byte)
  | [] => []
  | v :: vs => encode v :: encodeItems vs

def encodePairs : List (ByteString × Value) → List (ByteString × List Byte)
  | [] => []
  | (key, v) :: pairs => (key, encode v) :: encodePairs pairs

end

/-- The keys of each dictionary are pairwise distinct. -/
inductive Distinct : Value → Prop
  | integer (n : Int64) : Distinct (.integer n)
  | string (s : ByteString) : Distinct (.string s)
  | list {items : List Value} : (∀ v ∈ items, Distinct v) → Distinct (.list items)
  | dictionary {pairs : List (ByteString × Value)} : (keys pairs).Nodup →
      (∀ pair ∈ pairs, Distinct pair.2) → Distinct (.dictionary pairs)

/-- The same tree with the pairs of its dictionaries, at any depth, in another order. -/
inductive Reordered : Value → Value → Prop
  | refl (v : Value) : Reordered v v
  | trans {u v w : Value} : Reordered u v → Reordered v w → Reordered u w
  | permute {pairs pairs' : List (ByteString × Value)} : pairs.Perm pairs' →
      Reordered (.dictionary pairs) (.dictionary pairs')
  | item {before after : List Value} {v w : Value} : Reordered v w →
      Reordered (.list (before ++ v :: after)) (.list (before ++ w :: after))
  | entry {before after : List (ByteString × Value)} {key : ByteString} {v w : Value} :
      Reordered v w → Reordered (.dictionary (before ++ (key, v) :: after))
        (.dictionary (before ++ (key, w) :: after))

theorem encodeItems_eq_map (items : List Value) : encodeItems items = items.map encode := by
  induction items with
  | nil => rfl
  | cons v vs ih => rw [encodeItems, ih, List.map_cons]

theorem encodePairs_eq_mapValues (pairs : List (ByteString × Value)) :
    encodePairs pairs = mapValues encode pairs := by
  induction pairs with
  | nil => rfl
  | cons pair pairs ih =>
      rw [encodePairs, ih]
      rfl

/-! ### The order of the pairs -/

theorem Reordered.list {items items' : List Value} (h : List.Forall₂ Reordered items items') :
    Reordered (.list items) (.list items') := by
  suffices hpre : ∀ before, Reordered (.list (before ++ items)) (.list (before ++ items')) from hpre []
  induction h with
  | nil => exact fun before => .refl _
  | @cons v w items items' hv _ ih =>
      intro before
      have hrest := ih (before ++ [w])
      rw [List.append_assoc, List.append_assoc] at hrest
      exact .trans (.item hv) hrest

theorem Reordered.dictionary {pairs pairs' : List (ByteString × Value)}
    (h : List.Forall₂ (fun p q => p.1 = q.1 ∧ Reordered p.2 q.2) pairs pairs') :
    Reordered (.dictionary pairs) (.dictionary pairs') := by
  suffices hpre : ∀ before,
      Reordered (.dictionary (before ++ pairs)) (.dictionary (before ++ pairs')) from hpre []
  induction h with
  | nil => exact fun before => .refl _
  | @cons p q pairs pairs' hp _ ih =>
      intro before
      obtain ⟨key, v⟩ := p
      obtain ⟨key', w⟩ := q
      obtain ⟨rfl, hv⟩ := hp
      have hrest := ih (before ++ [(key, w)])
      rw [List.append_assoc, List.append_assoc] at hrest
      exact .trans (.entry hv) hrest

theorem Reordered.distinct {v w : Value} (h : Reordered v w) (hv : Distinct v) : Distinct w := by
  induction h with
  | refl => exact hv
  | trans _ _ ih ih' => exact ih' (ih hv)
  | permute hperm =>
      cases hv with
      | dictionary hnodup hpairs =>
          exact .dictionary ((keys_perm hperm).nodup_iff.mp hnodup)
            fun pair hmem => hpairs pair (hperm.mem_iff.mpr hmem)
  | item _ ih =>
      cases hv with
      | list hitems =>
          refine .list fun u hu => ?_
          rw [List.mem_append, List.mem_cons] at hu
          rcases hu with hu | rfl | hu
          · exact hitems u (by simp [hu])
          · exact ih (hitems _ (by simp))
          · exact hitems u (by simp [hu])
  | entry _ ih =>
      cases hv with
      | dictionary hnodup hpairs =>
          refine .dictionary (by simpa [keys] using hnodup) fun u hu => ?_
          rw [List.mem_append, List.mem_cons] at hu
          rcases hu with hu | rfl | hu
          · exact hpairs u (by simp [hu])
          · exact ih (hpairs _ (List.mem_append_right _ List.mem_cons_self))
          · exact hpairs u (by simp [hu])

/-- Sorting makes the encoding independent of the order of the pairs. -/
theorem Reordered.encode_eq {v w : Value} (h : Reordered v w) (hv : Distinct v) :
    encode w = encode v := by
  induction h with
  | refl => rfl
  | trans huv _ ih ih' => rw [ih' (huv.distinct hv), ih hv]
  | @permute pairs pairs' hperm =>
      cases hv with
      | dictionary hnodup _ =>
          have hsort : sort (mapValues encode pairs) = sort (mapValues encode pairs') :=
            sort_eq_of_perm (by rwa [keys_mapValues]) (hperm.map _)
          rw [encode, encode, encodePairs_eq_mapValues, encodePairs_eq_mapValues,
            Encoders.dictionary, Encoders.dictionary, hsort]
  | item _ ih =>
      cases hv with
      | list hitems =>
          rw [encode, encode, encodeItems_eq_map, encodeItems_eq_map, List.map_append,
            List.map_append, List.map_cons, List.map_cons, ih (hitems _ (by simp))]
  | entry _ ih =>
      cases hv with
      | dictionary _ hpairs =>
          have heq := ih (hpairs _ (List.mem_append_right _ List.mem_cons_self))
          rw [encode, encode, encodePairs_eq_mapValues, encodePairs_eq_mapValues, mapValues,
            mapValues, List.map_append, List.map_append, List.map_cons, List.map_cons, heq]

/-! ### The encoders write derived strings -/

theorem length_print (n : Nat) : Length (print n) n := by
  by_cases hn : n = 0
  · subst hn
    exact .zero
  · have h : Length (print n) (Decimal.value (print n)) := .positive (print_nonzeroLeading hn)
    rwa [value_print] at h

theorem numeral_toDecimal (n : Int) : Numeral (toDecimal n) n := by
  rw [toDecimal]
  split
  · have h : Numeral (minus :: print n.natAbs) (-(Decimal.value (print n.natAbs) : Int)) :=
      .negative (print_nonzeroLeading (by omega))
    rw [value_print] at h
    rwa [show -(n.natAbs : Int) = n by omega] at h
  · have h := (length_print n.natAbs).numeral
    rwa [show (n.natAbs : Int) = n by omega] at h

theorem derivesString_encode (s : ByteString) : DerivesString (Encoders.string s) s := by
  refine ⟨toDecimal s.size, ?_, rfl⟩
  rw [toDecimal, if_neg (by omega), Int.natAbs_natCast]
  exact length_print s.size

theorem derivesItems_encode {items : List Value}
    (h : ∀ v ∈ items, ∃ w, Derives (encode v) w ∧ Reordered v w) :
    ∃ items', DerivesItems (items.map encode).flatten items' ∧
      List.Forall₂ Reordered items items' := by
  induction items with
  | nil => exact ⟨[], .nil, .nil⟩
  | cons v vs ih =>
      obtain ⟨w, hw, hvw⟩ := h v List.mem_cons_self
      obtain ⟨ws, hws, hvws⟩ := ih fun u hu => h u (List.mem_cons_of_mem v hu)
      exact ⟨w :: ws, .cons hw hws, .cons hvw hvws⟩

theorem derivesPairs_encode {pairs : List (ByteString × Value)}
    (h : ∀ pair ∈ pairs, ∃ w, Derives (encode pair.2) w ∧ Reordered pair.2 w) :
    ∃ pairs', DerivesPairs ((mapValues encode pairs).map fun pair =>
        Encoders.string pair.1 ++ pair.2).flatten pairs' ∧
      List.Forall₂ (fun p q => p.1 = q.1 ∧ Reordered p.2 q.2) pairs pairs' ∧
      keys pairs' = keys pairs := by
  induction pairs with
  | nil => exact ⟨[], .nil, .nil, rfl⟩
  | cons pair pairs ih =>
      obtain ⟨w, hw, hvw⟩ := h pair List.mem_cons_self
      obtain ⟨ws, hws, hvws, hkeys⟩ := ih fun u hu => h u (List.mem_cons_of_mem pair hu)
      exact ⟨(pair.1, w) :: ws, .cons (derivesString_encode pair.1) hw hws, .cons ⟨rfl, hvw⟩ hvws,
        congrArg (pair.1 :: ·) hkeys⟩

/-- An encoded tree is derived by the grammar, with its dictionaries sorted. -/
theorem Distinct.derives {v : Value} (h : Distinct v) :
    ∃ w, Derives (encode v) w ∧ Reordered v w := by
  induction h with
  | integer n => exact ⟨_, .integer (numeral_toDecimal n.toInt), .refl _⟩
  | string s => exact ⟨_, .string (derivesString_encode s), .refl _⟩
  | @list items _ ih =>
      obtain ⟨items', hderives, hreordered⟩ := derivesItems_encode ih
      refine ⟨.list items', ?_, .list hreordered⟩
      rw [encode, encodeItems_eq_map]
      exact .list hderives
  | @dictionary pairs hnodup _ ih =>
      have hsorted : Sorted (sort (mapValues encode pairs)) :=
        sort_sorted (by rwa [keys_mapValues])
      have hsort : mapValues encode (sort pairs) = sort (mapValues encode pairs) :=
        mapValues_sort hnodup (sort_perm _) hsorted
      obtain ⟨pairs', hderives, hreordered, hkeys⟩ := @derivesPairs_encode (sort pairs)
        fun pair hmem => ih pair ((sort_perm pairs).mem_iff.mp hmem)
      refine ⟨.dictionary pairs', ?_, .trans (.permute (sort_perm pairs).symm) (.dictionary hreordered)⟩
      rw [encode, encodePairs_eq_mapValues, Encoders.dictionary, ← hsort]
      have hsorted' : Sorted pairs' := by
        rw [← pairwise_keys, hkeys, pairwise_keys]
        exact sort_sorted hnodup
      exact .dictionary hderives hsorted'.nodup_keys (List.Perm.refl _) hsorted'

/-! ### The round trip -/

/-- A tree encoded with its pairs in any order is decoded again. -/
theorem encode_decode (v : Value) (hv : Distinct v) :
    (∀ w, Reordered v w → encode w = encode v) ∧
      ∃ d, Decode.input (encode v) = some d ∧ Reordered v d.erase := by
  obtain ⟨w, hw, hvw⟩ := hv.derives
  obtain ⟨d, hd, rfl⟩ := input_erase_iff.mpr hw
  exact ⟨fun w hvw => hvw.encode_eq hv, d, hd, hvw⟩

/-- `{"b": [-2^63, "i0e"], "a": ""}`, whose pairs are not in order. -/
def sample : Value :=
  .dictionary [(⟨[98], by decide⟩, .list [.integer (-2 ^ 63), .string ⟨[105, 48, 101], by decide⟩]),
    (⟨[97], by decide⟩, .string .empty)]

theorem encode_decode_sample :
    (∀ w, Reordered sample w → encode w = encode sample) ∧
      ∃ d, Decode.input (encode sample) = some d ∧ Reordered sample d.erase := by
  refine encode_decode sample (.dictionary (by decide) ?_)
  simp only [List.forall_mem_cons]
  refine ⟨.list ?_, .string _, by simp⟩
  simp only [List.forall_mem_cons]
  exact ⟨.integer _, .string _, by simp⟩

end Value

end TorrentEngine.Bencode
