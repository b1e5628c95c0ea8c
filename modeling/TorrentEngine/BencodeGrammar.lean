import TorrentEngine.BencodeDecode

/-! The grammar of bencode, once over plain value trees and once over trees that carry the place each
value was read from. The two derive the same byte strings. -/

namespace TorrentEngine.Bencode

open OrderedEntries Decimal

/-- `num`: a zero, or a decimal number that does not start with a zero, with an optional minus sign. -/
inductive Numeral : List Byte → Int → Prop
  | zero : Numeral [ascii '0'] 0
  | positive {ds : List Byte} : NonzeroLeading ds → Numeral ds (value ds)
  | negative {ds : List Byte} : NonzeroLeading ds → Numeral (ascii '-' :: ds) (-(value ds : Int))

/-- `len`: a zero, or a decimal number that does not start with a zero. -/
inductive Length : List Byte → Nat → Prop
  | zero : Length [ascii '0'] 0
  | positive {ds : List Byte} : NonzeroLeading ds → Length ds (value ds)

/-- `len ':' bytes`. -/
def DerivesString (w : List Byte) (s : ByteString) : Prop :=
  ∃ len, Length len s.size ∧ w = len ++ ascii ':' :: s.bytes

mutual

/-- The byte string is derived from `value`, and this is the tree of the derivation. The entries of a
dictionary may come in any order, with distinct keys. -/
inductive Derives : List Byte → Value → Prop
  | integer {num : List Byte} {n : Int64} : Numeral num n.toInt →
      Derives (ascii 'i' :: num ++ [ascii 'e']) (.integer n)
  | string {w : List Byte} {s : ByteString} : DerivesString w s → Derives w (.string s)
  | list {body : List Byte} {items : List Value} : DerivesItems body items →
      Derives (ascii 'l' :: body ++ [ascii 'e']) (.list items)
  | dictionary {body : List Byte} {pairs entries : List (ByteString × Value)} :
      DerivesPairs body pairs → (keys pairs).Nodup → entries.Perm pairs → Sorted entries →
      Derives (ascii 'd' :: body ++ [ascii 'e']) (.dictionary entries)

inductive DerivesItems : List Byte → List Value → Prop
  | nil : DerivesItems [] []
  | cons {w ws : List Byte} {v : Value} {vs : List Value} : Derives w v → DerivesItems ws vs →
      DerivesItems (w ++ ws) (v :: vs)

inductive DerivesPairs : List Byte → List (ByteString × Value) → Prop
  | nil : DerivesPairs [] []
  | cons {k w ws : List Byte} {key : ByteString} {v : Value} {vs : List (ByteString × Value)} :
      DerivesString k key → Derives w v → DerivesPairs ws vs →
      DerivesPairs (k ++ w ++ ws) ((key, v) :: vs)

end

mutual

/-- The byte string, read from position `start` on, is derived from `value`, and this is the tree of the
derivation with the place of each value. -/
inductive Encodes : Nat → List Byte → Data → Prop
  | integer {start : Nat} {num : List Byte} {n : Int64} : Numeral num n.toInt →
      Encodes start (ascii 'i' :: num ++ [ascii 'e']) (.integer n ⟨start, num.length + 2⟩)
  | string {start : Nat} {w : List Byte} {s : ByteString} : DerivesString w s →
      Encodes start w (.string s ⟨start, w.length⟩)
  | list {start : Nat} {body : List Byte} {items : List Data} : EncodesItems (start + 1) body items →
      Encodes start (ascii 'l' :: body ++ [ascii 'e']) (.list items ⟨start, body.length + 2⟩)
  | dictionary {start : Nat} {body : List Byte} {pairs entries : List (ByteString × Data)} :
      EncodesPairs (start + 1) body pairs → (keys pairs).Nodup → entries.Perm pairs →
      Sorted entries →
      Encodes start (ascii 'd' :: body ++ [ascii 'e'])
        (.dictionary entries ⟨start, body.length + 2⟩)

inductive EncodesItems : Nat → List Byte → List Data → Prop
  | nil {start : Nat} : EncodesItems start [] []
  | cons {start : Nat} {w ws : List Byte} {d : Data} {ds : List Data} : Encodes start w d →
      EncodesItems (start + w.length) ws ds → EncodesItems start (w ++ ws) (d :: ds)

inductive EncodesPairs : Nat → List Byte → List (ByteString × Data) → Prop
  | nil {start : Nat} : EncodesPairs start [] []
  | cons {start : Nat} {k w ws : List Byte} {key : ByteString} {d : Data}
      {ds : List (ByteString × Data)} : DerivesString k key → Encodes (start + k.length) w d →
      EncodesPairs (start + k.length + w.length) ws ds →
      EncodesPairs start (k ++ w ++ ws) ((key, d) :: ds)

end

/-! ### Forgetting, restoring and moving the positions -/

mutual

theorem Encodes.derives {start : Nat} {w : List Byte} {d : Data} :
    Encodes start w d → Derives w d.erase
  | .integer hnum => .integer hnum
  | .string hstr => .string hstr
  | .list hitems => .list hitems.derives
  | .dictionary hpairs hnodup hperm hsorted => by
      have hderives := hpairs.derives
      rw [Data.erase, Data.eraseEntries_eq_mapValues]
      rw [Data.eraseEntries_eq_mapValues] at hderives
      exact .dictionary hderives (by rwa [keys_mapValues]) (hperm.map _)
        (sorted_mapValues.mpr hsorted)

theorem EncodesItems.derives {start : Nat} {w : List Byte} {ds : List Data} :
    EncodesItems start w ds → DerivesItems w (Data.eraseItems ds)
  | .nil => .nil
  | .cons hd hds => .cons hd.derives hds.derives

theorem EncodesPairs.derives {start : Nat} {w : List Byte} {ds : List (ByteString × Data)} :
    EncodesPairs start w ds → DerivesPairs w (Data.eraseEntries ds)
  | .nil => .nil
  | .cons hkey hd hds => .cons hkey hd.derives hds.derives

end

mutual

/-- Wherever a derived string is read, its values have their places. -/
theorem Derives.encodes {w : List Byte} {v : Value} (start : Nat) :
    Derives w v → ∃ d, Encodes start w d ∧ d.erase = v
  | .integer hnum => ⟨_, .integer hnum, rfl⟩
  | .string hstr => ⟨_, .string hstr, rfl⟩
  | .list hitems =>
      let ⟨_, hds, herase⟩ := hitems.encodes (start + 1)
      ⟨_, .list hds, by rw [Data.erase, herase]⟩
  | .dictionary hpairs hnodup hperm hsorted => by
      obtain ⟨ds, hds, rfl⟩ := hpairs.encodes (start + 1)
      rw [Data.eraseEntries_eq_mapValues] at hnodup hperm
      rw [keys_mapValues] at hnodup
      refine ⟨_, .dictionary hds hnodup (sort_perm ds) (sort_sorted hnodup), ?_⟩
      rw [Data.erase, Data.eraseEntries_eq_mapValues, mapValues_sort hnodup hperm hsorted]

theorem DerivesItems.encodes {w : List Byte} {vs : List Value} (start : Nat) :
    DerivesItems w vs → ∃ ds, EncodesItems start w ds ∧ Data.eraseItems ds = vs
  | .nil => ⟨_, .nil, rfl⟩
  | .cons hv hvs =>
      let ⟨_, hd, hderase⟩ := hv.encodes start
      let ⟨_, hds, hdserase⟩ := hvs.encodes _
      ⟨_, .cons hd hds, by rw [Data.eraseItems, hderase, hdserase]⟩

theorem DerivesPairs.encodes {w : List Byte} {vs : List (ByteString × Value)} (start : Nat) :
    DerivesPairs w vs → ∃ ds, EncodesPairs start w ds ∧ Data.eraseEntries ds = vs
  | .nil => ⟨_, .nil, rfl⟩
  | .cons hkey hv hvs =>
      let ⟨_, hd, hderase⟩ := hv.encodes _
      let ⟨_, hds, hdserase⟩ := hvs.encodes _
      ⟨_, .cons hkey hd hds, by rw [Data.eraseEntries, hderase, hdserase]⟩

end

mutual

/-- Reading the same string earlier moves every place by as much. -/
theorem Encodes.unshift {start offset m : Nat} {w : List Byte} {d : Data}
    (hm : m = start + offset) : Encodes m w d → ∃ d₀, Encodes start w d₀ ∧ d₀.shift offset = d
  | .integer hnum => ⟨_, .integer hnum, by rw [hm]; rfl⟩
  | .string hstr => ⟨_, .string hstr, by rw [hm]; rfl⟩
  | .list hitems =>
      let ⟨_, hds, hshift⟩ := hitems.unshift (show m + 1 = start + 1 + offset by omega)
      ⟨_, .list hds, by rw [Data.shift, hshift, hm]⟩
  | .dictionary hpairs hnodup hperm hsorted => by
      obtain ⟨ds, hds, rfl⟩ := hpairs.unshift (show m + 1 = start + 1 + offset by omega)
      rw [Data.shiftEntries_eq_mapValues] at hnodup hperm
      rw [keys_mapValues] at hnodup
      refine ⟨_, .dictionary hds hnodup (sort_perm ds) (sort_sorted hnodup), ?_⟩
      rw [Data.shift, Data.shiftEntries_eq_mapValues, mapValues_sort hnodup hperm hsorted, hm]

theorem EncodesItems.unshift {start offset m : Nat} {w : List Byte} {ds : List Data}
    (hm : m = start + offset) :
    EncodesItems m w ds → ∃ ds₀, EncodesItems start w ds₀ ∧ Data.shiftItems offset ds₀ = ds
  | .nil => ⟨_, .nil, rfl⟩
  | @EncodesItems.cons _ w _ _ _ hd hds =>
      let ⟨_, hd₀, hdshift⟩ := hd.unshift hm
      let ⟨_, hds₀, hdsshift⟩ :=
        hds.unshift (show m + w.length = start + w.length + offset by omega)
      ⟨_, .cons hd₀ hds₀, by rw [Data.shiftItems, hdshift, hdsshift]⟩

theorem EncodesPairs.unshift {start offset m : Nat} {w : List Byte} {ds : List (ByteString × Data)}
    (hm : m = start + offset) :
    EncodesPairs m w ds → ∃ ds₀, EncodesPairs start w ds₀ ∧ Data.shiftEntries offset ds₀ = ds
  | .nil => ⟨_, .nil, rfl⟩
  | @EncodesPairs.cons _ k w _ _ _ _ hkey hd hds =>
      let ⟨_, hd₀, hdshift⟩ := hd.unshift (show m + k.length = start + k.length + offset by omega)
      let ⟨_, hds₀, hdsshift⟩ := hds.unshift
        (show m + k.length + w.length = start + k.length + w.length + offset by omega)
      ⟨_, .cons hkey hd₀ hds₀, by rw [Data.shiftEntries, hdshift, hdsshift]⟩

end

/-! ### Lengths -/

theorem Length.length_pos {len : List Byte} {size : Nat} (h : Length len size) : 0 < len.length := by
  cases h with
  | zero => decide
  | positive hds => exact List.length_pos_iff.mpr hds.ne_nil

theorem DerivesString.two_le_length {w : List Byte} {s : ByteString} (h : DerivesString w s) :
    2 ≤ w.length := by
  obtain ⟨len, hlen, rfl⟩ := h
  have hpos := hlen.length_pos
  simp only [List.length_append, List.length_cons]
  omega

theorem Encodes.two_le_length {start : Nat} {w : List Byte} {d : Data} (h : Encodes start w d) :
    2 ≤ w.length := by
  cases h with
  | string hstr => exact hstr.two_le_length
  | _ =>
      simp only [List.cons_append, List.length_cons, List.length_append]
      omega

/-- A value is recorded where it is read, with the length of what was read. -/
theorem Encodes.positionInSource {start : Nat} {w : List Byte} {d : Data} (h : Encodes start w d) :
    d.positionInSource = ⟨start, w.length⟩ := by
  cases h with
  | string hstr => rfl
  | _ =>
      simp only [List.cons_append, List.length_cons, List.length_append]
      rfl

end TorrentEngine.Bencode
