import TorrentEngine.BencodeCorrect

/-! Where values stand in the source: every value of an accepted source, at any depth, is recorded with
the place of its own encoding. -/

namespace TorrentEngine.Bencode

open OrderedEntries

namespace SourceStats

/-- The position after the last byte. -/
def stop (p : SourceStats) : Nat := p.start + p.size

/-- The bytes of the source at this place. -/
def slice (p : SourceStats) (source : List Byte) : List Byte := (source.drop p.start).take p.size

/-- A place with at least a byte of `q` before it and after it. -/
def StrictlyInside (p q : SourceStats) : Prop := q.start < p.start ∧ p.stop < q.stop

def Disjoint (p q : SourceStats) : Prop := p.stop ≤ q.start ∨ q.stop ≤ p.start

theorem slice_append (before w after : List Byte) :
    (⟨before.length, w.length⟩ : SourceStats).slice (before ++ (w ++ after)) = w := by
  rw [slice, List.drop_left, List.take_left]

end SourceStats

/-- The items of a list stand one after the other, each with its own encoding. -/
theorem EncodesItems.split {start : Nat} {body : List Byte} {items : List Data}
    (h : EncodesItems start body items) {c : Data} (hc : c ∈ items) :
    ∃ before w after, body = before ++ (w ++ after) ∧ Encodes (start + before.length) w c := by
  induction items generalizing start body with
  | nil => exact absurd hc List.not_mem_nil
  | cons d ds ih =>
      cases h with
      | @cons _ w ws _ _ hd hds =>
          rcases List.mem_cons.mp hc with rfl | hc
          · exact ⟨[], w, ws, rfl, hd⟩
          · obtain ⟨before, v, after, rfl, hv⟩ := ih hds hc
            refine ⟨w ++ before, v, after, by simp, ?_⟩
            rwa [List.length_append, ← Nat.add_assoc]

theorem EncodesPairs.split {start : Nat} {body : List Byte} {pairs : List (ByteString × Data)}
    (h : EncodesPairs start body pairs) {c : Data} (hc : c ∈ pairs.map Prod.snd) :
    ∃ before w after, body = before ++ (w ++ after) ∧ Encodes (start + before.length) w c := by
  induction pairs generalizing start body with
  | nil => exact absurd hc List.not_mem_nil
  | cons d ds ih =>
      cases h with
      | @cons _ k w ws _ _ _ _ hd hds =>
          rcases List.mem_cons.mp hc with rfl | hc
          · exact ⟨k, w, ws, by simp, hd⟩
          · obtain ⟨before, v, after, rfl, hv⟩ := ih hds hc
            refine ⟨k ++ w ++ before, v, after, by simp, ?_⟩
            rwa [List.length_append, List.length_append, ← Nat.add_assoc, ← Nat.add_assoc]

/-- A child stands between the header and the delimiter of its parent. -/
theorem Encodes.split_child {start : Nat} {w : List Byte} {d c : Data} (h : Encodes start w d)
    (hc : c ∈ d.children) : ∃ before v after, w = before ++ (v ++ after) ∧
      Encodes (start + before.length) v c ∧ before ≠ [] ∧ after ≠ [] := by
  cases h with
  | integer _ => exact absurd hc List.not_mem_nil
  | string _ => exact absurd hc List.not_mem_nil
  | list hitems =>
      obtain ⟨before, v, after, rfl, hv⟩ := hitems.split hc
      refine ⟨ascii 'l' :: before, v, after ++ [ascii 'e'], by simp, ?_, by simp, by simp⟩
      rwa [List.length_cons, Nat.add_comm before.length, ← Nat.add_assoc]
  | dictionary hpairs _ hperm _ =>
      obtain ⟨before, v, after, rfl, hv⟩ := hpairs.split ((hperm.map Prod.snd).mem_iff.mp hc)
      refine ⟨ascii 'd' :: before, v, after ++ [ascii 'e'], by simp, ?_, by simp, by simp⟩
      rwa [List.length_cons, Nat.add_comm before.length, ← Nat.add_assoc]

theorem Encodes.split_within {start : Nat} {w : List Byte} {d v : Data} (h : Encodes start w d)
    (hv : Data.Within v d) :
    ∃ before u after, w = before ++ (u ++ after) ∧ Encodes (start + before.length) u v := by
  induction hv generalizing start w with
  | self d => exact ⟨[], w, [], by simp, h⟩
  | child hc _ ih =>
      obtain ⟨before, u, after, rfl, hu, -, -⟩ := h.split_child hc
      obtain ⟨before', u', after', rfl, hu'⟩ := ih hu
      refine ⟨before ++ before', u', after' ++ after, by simp, ?_⟩
      rwa [List.length_append, ← Nat.add_assoc]

theorem Encodes.child_strictlyInside {start : Nat} {w : List Byte} {d c : Data}
    (h : Encodes start w d) (hc : c ∈ d.children) :
    c.positionInSource.StrictlyInside d.positionInSource := by
  obtain ⟨before, v, after, rfl, hv, hbefore, hafter⟩ := h.split_child hc
  have hb := List.length_pos_iff.mpr hbefore
  have ha := List.length_pos_iff.mpr hafter
  rw [hv.positionInSource, h.positionInSource]
  simp only [SourceStats.StrictlyInside, SourceStats.stop, List.length_append]
  omega

theorem EncodesItems.siblings {start : Nat} {body : List Byte} {items : List Data}
    (h : EncodesItems start body items) :
    items.Pairwise fun c c' => c.positionInSource.stop ≤ c'.positionInSource.start := by
  induction items generalizing start body with
  | nil => exact .nil
  | cons d ds ih =>
      cases h with
      | cons hd hds =>
          refine .cons (fun c hc => ?_) (ih hds)
          obtain ⟨before, v, after, -, hv⟩ := hds.split hc
          rw [hd.positionInSource, hv.positionInSource]
          exact Nat.le_add_right _ _

theorem EncodesPairs.siblings {start : Nat} {body : List Byte} {pairs : List (ByteString × Data)}
    (h : EncodesPairs start body pairs) :
    (pairs.map Prod.snd).Pairwise fun c c' =>
      c.positionInSource.stop ≤ c'.positionInSource.start := by
  induction pairs generalizing start body with
  | nil => exact .nil
  | cons d ds ih =>
      cases h with
      | cons hkey hd hds =>
          refine .cons (fun c hc => ?_) (ih hds)
          obtain ⟨before, v, after, -, hv⟩ := hds.split hc
          rw [hd.positionInSource, hv.positionInSource]
          exact Nat.le_add_right _ _

theorem Encodes.siblings_disjoint {start : Nat} {w : List Byte} {d : Data} (h : Encodes start w d) :
    d.children.Pairwise fun c c' => c.positionInSource.Disjoint c'.positionInSource := by
  cases h with
  | integer _ => exact .nil
  | string _ => exact .nil
  | list hitems => exact hitems.siblings.imp Or.inl
  | dictionary hpairs _ hperm _ =>
      exact ((hperm.map Prod.snd).pairwise_iff Or.symm).mpr (hpairs.siblings.imp Or.inl)

/-- The place of a value holds an encoding that, decoded alone, gives the value. -/
theorem Encodes.decode_alone {source : List Byte} {d v : Data} (h : Encodes 0 source d)
    (hv : Data.Within v d) :
    ∃ before encode after, source = before ++ (encode ++ after) ∧ Encodes before.length encode v ∧
      ∃ v₀, Decode.input encode = some v₀ ∧ v₀.shift before.length = v := by
  obtain ⟨before, encode, after, rfl, hencode⟩ := h.split_within hv
  rw [Nat.zero_add] at hencode
  obtain ⟨v₀, hv₀, hshift⟩ := hencode.unshift (Nat.zero_add _).symm
  exact ⟨before, encode, after, rfl, hencode, v₀, input_eq_some.mpr hv₀, hshift⟩

end TorrentEngine.Bencode
