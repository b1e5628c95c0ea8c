import Mathlib.Data.List.TakeWhile

/-! Urls with a query, as bytes: bytes escaped with a percent sign and read again, and the fields of a query
joined and split. -/

namespace QueryString

def percent : UInt8 := 0x25

def hash : UInt8 := 0x23

def ampersand : UInt8 := 0x26

def equalsSign : UInt8 := 0x3D

def questionMark : UInt8 := 0x3F

/-! ### Escaping -/

/-- Letters, digits, and `-`, `.`, `_`, `~`. -/
def isUnreserved (b : UInt8) : Bool :=
  (0x30 ≤ b && b ≤ 0x39) || (0x41 ≤ b && b ≤ 0x5A) || (0x61 ≤ b && b ≤ 0x7A) ||
    b = 0x2D || b = 0x2E || b = 0x5F || b = 0x7E

def hexDigit (n : Nat) : UInt8 := if n < 10 then UInt8.ofNat (0x30 + n) else UInt8.ofNat (0x37 + n)

def hexValue (b : UInt8) : Option Nat :=
  if 0x30 ≤ b ∧ b ≤ 0x39 then some (b.toNat - 0x30)
  else if 0x41 ≤ b ∧ b ≤ 0x46 then some (b.toNat - 0x37)
  else if 0x61 ≤ b ∧ b ≤ 0x66 then some (b.toNat - 0x57)
  else none

def escapeByte (b : UInt8) : List UInt8 :=
  if isUnreserved b then [b] else [percent, hexDigit (b.toNat / 16), hexDigit (b.toNat % 16)]

def escape (bytes : List UInt8) : List UInt8 := bytes.flatMap escapeByte

/-- A percent sign without two digits after it stands for itself. -/
def unescape : List UInt8 → List UInt8
  | [] => []
  | [a] => [a]
  | [a, b] => [a, b]
  | a :: b :: c :: rest =>
      if a = percent then
        match hexValue b, hexValue c with
        | some high, some low => UInt8.ofNat (16 * high + low) :: unescape rest
        | _, _ => a :: unescape (b :: c :: rest)
      else a :: unescape (b :: c :: rest)

theorem hexValue_hexDigit : ∀ n < 16, hexValue (hexDigit n) = some n := by decide

theorem unescape_cons {b : UInt8} (hb : b ≠ percent) (rest : List UInt8) :
    unescape (b :: rest) = b :: unescape rest := by
  match rest with
  | [] => rfl
  | [_] => rfl
  | _ :: _ :: _ => rw [unescape, if_neg hb]

theorem isUnreserved_ne {b c : UInt8} (hb : isUnreserved b = true) (hc : isUnreserved c = false) : b ≠ c := by
  rintro rfl
  rw [hb] at hc
  cases hc

theorem unescape_escapeByte (b : UInt8) (rest : List UInt8) :
    unescape (escapeByte b ++ rest) = b :: unescape rest := by
  rw [escapeByte]
  split
  · rename_i hplain
    exact unescape_cons (isUnreserved_ne hplain rfl) rest
  · have hb : b.toNat < 256 := b.toNat_lt
    rw [List.cons_append, List.cons_append, List.cons_append, List.nil_append, unescape, if_pos rfl,
      hexValue_hexDigit _ (by omega), hexValue_hexDigit _ (by omega)]
    dsimp only
    rw [Nat.div_add_mod, UInt8.ofNat_toNat]

/-- **What was escaped is read again.** -/
theorem unescape_escape (bytes : List UInt8) : unescape (escape bytes) = bytes := by
  induction bytes with
  | nil => rfl
  | cons b bytes ih => rw [escape, List.flatMap_cons, unescape_escapeByte, ← escape, ih]

theorem unescape_of_not_mem {bytes : List UInt8} (h : percent ∉ bytes) : unescape bytes = bytes := by
  induction bytes with
  | nil => rfl
  | cons b bytes ih =>
      rw [List.mem_cons, not_or] at h
      rw [unescape_cons (Ne.symm h.1), ih h.2]

theorem mem_escapeByte {b c : UInt8} (h : c ∈ escapeByte b) : c = percent ∨ isUnreserved c = true := by
  have hdigit : ∀ n < 16, isUnreserved (hexDigit n) = true := by decide
  have hb : b.toNat < 256 := b.toNat_lt
  rw [escapeByte] at h
  split at h
  · rename_i hplain
    rw [List.mem_singleton.mp h]
    exact Or.inr hplain
  · rw [List.mem_cons, List.mem_cons, List.mem_singleton] at h
    rcases h with rfl | rfl | rfl
    · exact Or.inl rfl
    · exact Or.inr (hdigit _ (by omega))
    · exact Or.inr (hdigit _ (by omega))

/-- Escaped bytes hold no other separator. -/
theorem not_mem_escape {bytes : List UInt8} {c : UInt8} (hc : isUnreserved c = false) (hne : c ≠ percent) :
    c ∉ escape bytes := by
  intro hmem
  obtain ⟨b, -, hb⟩ := List.mem_flatMap.mp hmem
  rcases mem_escapeByte hb with rfl | hplain
  · exact hne rfl
  · rw [hc] at hplain
    cases hplain

/-! ### Fields -/

/-- A field split at its first equals sign, and its value read. -/
def readField (field : List UInt8) : List UInt8 × List UInt8 :=
  (field.takeWhile (· ≠ equalsSign), unescape ((field.dropWhile (· ≠ equalsSign)).drop 1))

/-- The fields of a query. -/
def readQuery (query : List UInt8) : List (List UInt8 × List UInt8) := (query.splitOn ampersand).map readField

def field (pair : List UInt8 × List UInt8) : List UInt8 := pair.1 ++ equalsSign :: pair.2

/-- A key and a value that a query can hold. -/
structure Separable (pair : List UInt8 × List UInt8) : Prop where
  key_equals : equalsSign ∉ pair.1
  key_ampersand : ampersand ∉ pair.1
  key_hash : hash ∉ pair.1
  value_ampersand : ampersand ∉ pair.2
  value_hash : hash ∉ pair.2

theorem Separable.not_mem_field {pair : List UInt8 × List UInt8} (h : Separable pair) :
    ampersand ∉ field pair ∧ hash ∉ field pair := by
  rw [field, List.mem_append, List.mem_cons, List.mem_append, List.mem_cons]
  constructor
  · rintro (hkey | heq | hvalue)
    · exact h.key_ampersand hkey
    · exact absurd heq (by decide)
    · exact h.value_ampersand hvalue
  · rintro (hkey | heq | hvalue)
    · exact h.key_hash hkey
    · exact absurd heq (by decide)
    · exact h.value_hash hvalue

theorem readField_field {pair : List UInt8 × List UInt8} (h : Separable pair) :
    readField (field pair) = (pair.1, unescape pair.2) := by
  have hall : ∀ b ∈ pair.1, decide (b ≠ equalsSign) = true := fun b hb =>
    decide_eq_true fun heq => h.key_equals (heq ▸ hb)
  rw [readField, field, List.takeWhile_append_of_pos hall, List.dropWhile_append_of_pos hall,
    List.takeWhile_cons_of_neg (by simp), List.dropWhile_cons_of_neg (by simp), List.append_nil,
    List.drop_succ_cons, List.drop_zero]

theorem readQuery_intercalate {pairs : List (List UInt8 × List UInt8)} (hne : pairs ≠ [])
    (h : ∀ pair ∈ pairs, Separable pair) :
    readQuery ([ampersand].intercalate (pairs.map field)) =
      pairs.map fun pair => (pair.1, unescape pair.2) := by
  have hfields : ∀ f ∈ pairs.map field, ampersand ∉ f := by
    intro f hf
    obtain ⟨pair, hpair, rfl⟩ := List.mem_map.mp hf
    exact (h pair hpair).not_mem_field.1
  rw [readQuery, List.splitOn_intercalate _ hfields (by rwa [ne_eq, List.map_eq_nil_iff]), List.map_map]
  apply List.map_congr_left
  intro pair hpair
  exact readField_field (h pair hpair)

/-- Fields after the first are each put behind a separator. -/
theorem intercalate_cons (separator : UInt8) (first : List UInt8) (fields : List (List UInt8)) :
    [separator].intercalate (first :: fields) = first ++ fields.flatMap (separator :: ·) := by
  induction fields generalizing first with
  | nil => simp [List.intercalate]
  | cons second fields ih =>
      have hnext : [separator].intercalate (first :: second :: fields) =
          first ++ separator :: [separator].intercalate (second :: fields) := by
        simp [List.intercalate]
      rw [hnext, ih, List.flatMap_cons, List.cons_append]

theorem intercalate_append (separator : UInt8) {fields : List (List UInt8)} (hne : fields ≠ [])
    (more : List (List UInt8)) :
    [separator].intercalate (fields ++ more) =
      [separator].intercalate fields ++ more.flatMap (separator :: ·) := by
  obtain ⟨first, fields, rfl⟩ := List.exists_cons_of_ne_nil hne
  rw [List.cons_append, intercalate_cons, intercalate_cons, List.flatMap_append, List.append_assoc]

theorem hash_not_mem_intercalate {pairs : List (List UInt8 × List UInt8)} (h : ∀ pair ∈ pairs, Separable pair) :
    hash ∉ [ampersand].intercalate (pairs.map field) := by
  cases pairs with
  | nil => exact List.not_mem_nil
  | cons first pairs =>
      rw [List.map_cons, intercalate_cons, List.mem_append, List.mem_flatMap]
      rintro (hfirst | ⟨f, hf, hmem⟩)
      · exact (h first List.mem_cons_self).not_mem_field.2 hfirst
      · obtain ⟨pair, hpair, rfl⟩ := List.mem_map.mp hf
        rcases List.mem_cons.mp hmem with heq | hmem
        · exact absurd heq (by decide)
        · exact (h pair (List.mem_cons_of_mem _ hpair)).not_mem_field.2 hmem

/-! ### Urls -/

/-- A url without its fragment, cut at the first question mark. -/
def readUrl (url : List UInt8) : List UInt8 × List (List UInt8 × List UInt8) :=
  let url := url.takeWhile (· ≠ hash)
  (url.takeWhile (· ≠ questionMark), readQuery ((url.dropWhile (· ≠ questionMark)).drop 1))

theorem readUrl_append {base query : List UInt8} (hbase : questionMark ∉ base) (hfragment : hash ∉ base)
    (hquery : hash ∉ query) : readUrl (base ++ questionMark :: query) = (base, readQuery query) := by
  have hall : ∀ b ∈ base ++ questionMark :: query, decide (b ≠ hash) = true := by
    intro b hb
    apply decide_eq_true
    rintro rfl
    rw [List.mem_append, List.mem_cons] at hb
    rcases hb with hb | hb | hb
    · exact hfragment hb
    · exact absurd hb (by decide)
    · exact hquery hb
  have hcut : ∀ b ∈ base, decide (b ≠ questionMark) = true := fun b hb =>
    decide_eq_true fun heq => hbase (heq ▸ hb)
  rw [readUrl, List.takeWhile_eq_self_iff.mpr hall, List.takeWhile_append_of_pos hcut,
    List.dropWhile_append_of_pos hcut, List.takeWhile_cons_of_neg (by simp),
    List.dropWhile_cons_of_neg (by simp), List.append_nil, List.drop_succ_cons, List.drop_zero]

/-- **The fields of a query are read back**, with the url before it. -/
theorem readUrl_fields {base : List UInt8} {pairs : List (List UInt8 × List UInt8)}
    (hbase : questionMark ∉ base) (hfragment : hash ∉ base) (hne : pairs ≠ [])
    (h : ∀ pair ∈ pairs, Separable pair) :
    readUrl (base ++ questionMark :: [ampersand].intercalate (pairs.map field)) =
      (base, pairs.map fun pair => (pair.1, unescape pair.2)) := by
  rw [readUrl_append hbase hfragment (hash_not_mem_intercalate h), readQuery_intercalate hne h]

/-! ### Fields behind another query -/

theorem splitOn_append_of_not_mem (query : List UInt8) {more : List UInt8} (h : ampersand ∉ more) :
    ∃ front last, query.splitOn ampersand = front ++ [last] ∧
      (query ++ more).splitOn ampersand = front ++ [last ++ more] := by
  induction query with
  | nil => exact ⟨[], [], rfl, List.splitOn_eq_singleton h⟩
  | cons b query ih =>
      obtain ⟨front, last, hquery, hmore⟩ := ih
      rw [List.cons_append, List.splitOn_cons_eq_if_modifyHead, List.splitOn_cons_eq_if_modifyHead, hquery, hmore]
      split
      · exact ⟨[] :: front, last, rfl, rfl⟩
      · cases front with
        | nil => exact ⟨[], b :: last, rfl, rfl⟩
        | cons first front => exact ⟨(b :: first) :: front, last, rfl, rfl⟩

theorem splitOn_flatMap (query : List UInt8) {fields : List (List UInt8)} (h : ∀ f ∈ fields, ampersand ∉ f) :
    (query ++ fields.flatMap (ampersand :: ·)).splitOn ampersand = query.splitOn ampersand ++ fields := by
  induction fields generalizing query with
  | nil => rw [List.flatMap_nil, List.append_nil, List.append_nil]
  | cons f fields ih =>
      rw [List.forall_mem_cons] at h
      rw [List.flatMap_cons, List.cons_append, List.splitOn_append_cons_self, ih _ h.2, List.splitOn_eq_singleton h.1,
        List.singleton_append]

/-- The key of a field that was put behind a query with a question mark is none but a key of that query. -/
theorem key_of_readQuery_append {query more key : List UInt8} (hmore : ampersand ∉ more) (hkey : questionMark ∉ key)
    (h : key ∈ (readQuery (query ++ questionMark :: more)).map Prod.fst) :
    key ∈ (readQuery query).map Prod.fst := by
  have hbehind : ampersand ∉ questionMark :: more := by
    rw [List.mem_cons, not_or]
    exact ⟨by decide, hmore⟩
  obtain ⟨front, last, hquery, happend⟩ := splitOn_append_of_not_mem query hbehind
  rw [readQuery, happend, List.map_append, List.map_append, List.mem_append] at h
  rw [readQuery, hquery, List.map_append, List.map_append, List.mem_append]
  refine h.imp_right fun hlast => ?_
  rw [List.map_singleton, List.map_singleton, List.mem_singleton] at hlast ⊢
  rw [readField, List.takeWhile_append] at hlast
  split at hlast
  · rw [List.takeWhile_cons_of_pos (by decide)] at hlast
    rw [hlast] at hkey
    exact absurd (List.mem_append_right _ List.mem_cons_self) hkey
  · exact hlast

/-- **The first field put behind a query with a question mark is lost**: it is read as a part of the field before it. -/
theorem key_of_readQuery_fields {query key : List UInt8} {first : List UInt8 × List UInt8}
    {pairs : List (List UInt8 × List UInt8)} (h : ∀ pair ∈ first :: pairs, Separable pair)
    (hkey : questionMark ∉ key)
    (hmem : key ∈ (readQuery (query ++ questionMark ::
      [ampersand].intercalate ((first :: pairs).map field))).map Prod.fst) :
    key ∈ (readQuery query).map Prod.fst ∨ key ∈ pairs.map Prod.fst := by
  rw [List.forall_mem_cons] at h
  have hfields : ∀ f ∈ pairs.map field, ampersand ∉ f := by
    intro f hf
    obtain ⟨pair, hpair, rfl⟩ := List.mem_map.mp hf
    exact (h.2 pair hpair).not_mem_field.1
  have hquery : readQuery (query ++ questionMark :: [ampersand].intercalate ((first :: pairs).map field)) =
      readQuery (query ++ questionMark :: field first) ++ (pairs.map field).map readField := by
    rw [List.map_cons, intercalate_cons, ← List.cons_append, ← List.append_assoc, readQuery, splitOn_flatMap _ hfields,
      List.map_append, readQuery]
  rw [hquery, List.map_append, List.mem_append] at hmem
  refine hmem.imp (key_of_readQuery_append h.1.not_mem_field.1 hkey) fun hpairs => ?_
  rw [List.map_map, List.map_map, List.mem_map] at hpairs
  obtain ⟨pair, hpair, rfl⟩ := hpairs
  rw [Function.comp_apply, Function.comp_apply, readField_field (h.2 pair hpair)]
  exact List.mem_map.mpr ⟨pair, hpair, rfl⟩

/-- What is put behind a fragment is not read. -/
theorem readUrl_append_of_hash {url : List UInt8} (h : hash ∈ url) (more : List UInt8) :
    readUrl (url ++ more) = readUrl url := by
  have hcut : (url ++ more).takeWhile (· ≠ hash) = url.takeWhile (· ≠ hash) := by
    rw [List.takeWhile_append, if_neg]
    intro hlength
    have hwhole := (List.takeWhile_prefix _).eq_of_length hlength
    rw [List.takeWhile_eq_self_iff] at hwhole
    exact absurd (hwhole _ h) (by simp)
  rw [readUrl, readUrl, hcut]

/-- What is put behind a query is read as a part of it. -/
theorem readUrl_append_of_questionMark {url more : List UInt8} (hquestion : questionMark ∈ url) (hurl : hash ∉ url)
    (hmore : hash ∉ more) :
    ∃ query, (readUrl url).2 = readQuery query ∧ (readUrl (url ++ more)).2 = readQuery (query ++ more) := by
  obtain ⟨base, query, rfl, hbase⟩ := List.eq_append_cons_of_mem hquestion
  rw [List.mem_append, List.mem_cons, not_or, not_or] at hurl
  obtain ⟨hfragment, -, hquery⟩ := hurl
  have hall : hash ∉ query ++ more := by
    rw [List.mem_append, not_or]
    exact ⟨hquery, hmore⟩
  refine ⟨query, ?_, ?_⟩
  · rw [readUrl_append hbase hfragment hquery]
  · rw [List.append_assoc, List.cons_append, readUrl_append hbase hfragment hall]

/-- **The first field put behind a url is read if and only if the url has no query and no fragment**, where the url
has no field of that key itself. -/
theorem readUrl_fields_iff {url : List UInt8} {first : List UInt8 × List UInt8}
    {pairs : List (List UInt8 × List UInt8)} (h : ∀ pair ∈ first :: pairs, Separable pair)
    (hkey : questionMark ∉ first.1) (hown : first.1 ∉ (readUrl url).2.map Prod.fst)
    (hpairs : first.1 ∉ pairs.map Prod.fst) :
    first.1 ∈ (readUrl (url ++ questionMark ::
        [ampersand].intercalate ((first :: pairs).map field))).2.map Prod.fst ↔
      questionMark ∉ url ∧ hash ∉ url := by
  constructor
  · intro hmem
    by_cases hurl : hash ∈ url
    · rw [readUrl_append_of_hash hurl] at hmem
      exact absurd hmem hown
    · refine ⟨fun hquestion => ?_, hurl⟩
      have hmore : hash ∉ questionMark :: [ampersand].intercalate ((first :: pairs).map field) := by
        rw [List.mem_cons, not_or]
        exact ⟨by decide, hash_not_mem_intercalate h⟩
      obtain ⟨query, hread, happend⟩ := readUrl_append_of_questionMark hquestion hurl hmore
      rw [happend] at hmem
      rw [hread] at hown
      exact (key_of_readQuery_fields h hkey hmem).elim hown hpairs
  · rintro ⟨hquestion, hurl⟩
    rw [readUrl_fields hquestion hurl (List.cons_ne_nil _ _) h, List.map_cons, List.map_cons]
    exact List.mem_cons_self

end QueryString
