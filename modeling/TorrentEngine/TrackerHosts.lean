import Mathlib.Data.Bool.AllAny
import TorrentEngine.TrackerSpace

/-! The grouping of the announce urls by host. `get_hostname` looks for the end of the host from the end of
the url, at the last colon or else at the last slash. -/

namespace TorrentEngine

open Bencode Tracker

/-! ### Searches -/

theorem findLastOf_nil (b : Byte) : findLastOf b [] = none := rfl

theorem findLastOf_cons (b x : Byte) (xs : List Byte) :
    findLastOf b (x :: xs) =
      match findLastOf b xs with
      | some i => some (i + 1)
      | none => if x = b then some 0 else none := by
  rw [findLastOf, findLastOf, List.reverse_cons, List.findIdx?_append]
  cases hlast : xs.reverse.findIdx? (· = b) with
  | some fromEnd =>
      have hlt := (List.findIdx?_eq_some_iff_getElem.mp hlast).1
      rw [List.length_reverse] at hlt
      apply congrArg some
      rw [List.length_cons]
      dsimp only
      omega
  | none =>
      by_cases hx : x = b
      · simp [hx]
      · simp [hx]

theorem findLastOf_eq_none_iff {b : Byte} {xs : List Byte} : findLastOf b xs = none ↔ b ∉ xs := by
  induction xs with
  | nil => simp [findLastOf_nil]
  | cons x xs ih =>
      rw [findLastOf_cons, List.mem_cons, not_or]
      cases hlast : findLastOf b xs with
      | some i =>
          rw [hlast] at ih
          simp only [reduceCtorEq, false_iff] at ih ⊢
          intro h
          exact ih h.2
      | none =>
          have hrest := ih.mp hlast
          by_cases hx : x = b
          · simp [hx]
          · simp [hx, hrest, Ne.symm hx]

/-- The last occurrence, with what stands around it. -/
theorem findLastOf_eq_some_iff {b : Byte} {xs : List Byte} {i : Nat} :
    findLastOf b xs = some i ↔
      ∃ before rest, xs = before ++ b :: rest ∧ b ∉ rest ∧ before.length = i := by
  induction xs generalizing i with
  | nil => simp [findLastOf_nil]
  | cons x xs ih =>
      rw [findLastOf_cons]
      constructor
      · intro h
        cases hlast : findLastOf b xs with
        | some j =>
            obtain ⟨before, rest, hsplit, hrest, hlength⟩ := ih.mp hlast
            rw [hlast, Option.some.injEq] at h
            exact ⟨x :: before, rest, by rw [hsplit, List.cons_append], hrest, by
              rw [List.length_cons, hlength, h]⟩
        | none =>
            rw [hlast] at h
            by_cases hx : x = b
            · simp only [hx, if_true, Option.some.injEq] at h
              exact ⟨[], xs, by rw [hx, List.nil_append], findLastOf_eq_none_iff.mp hlast, h⟩
            · simp [hx] at h
      · intro h
        obtain ⟨before, rest, hsplit, hrest, hlength⟩ := h
        cases before with
        | nil =>
            cases hsplit
            rw [findLastOf_eq_none_iff.mpr hrest, ← hlength]
            exact if_pos rfl
        | cons y before =>
            cases hsplit
            rw [ih.mpr ⟨before, rest, rfl, hrest, rfl⟩, ← hlength]
            rfl

theorem findLastOf_append (b : Byte) (xs ys : List Byte) :
    findLastOf b (xs ++ ys) =
      match findLastOf b ys with
      | some i => some (xs.length + i)
      | none => findLastOf b xs := by
  induction xs with
  | nil =>
      rw [List.nil_append, findLastOf_nil]
      cases findLastOf b ys with
      | some i => exact congrArg some (Nat.zero_add i).symm
      | none => rfl
  | cons x xs ih =>
      rw [List.cons_append, findLastOf_cons, ih, findLastOf_cons b x xs]
      cases findLastOf b ys with
      | some i =>
          dsimp only
          rw [List.length_cons, Nat.add_right_comm]
      | none => rfl

/-- A pattern that begins with a byte not met before is found where it is. -/
theorem findPattern_append {b : Byte} {pattern before : List Byte} (hbefore : b ∉ before)
    (rest : List Byte) : findPattern (b :: pattern) (before ++ (b :: pattern ++ rest)) =
      some before.length := by
  induction before with
  | nil =>
      rw [List.nil_append, List.cons_append, findPattern, if_pos]
      · rfl
      · rw [List.isPrefixOf_iff_prefix, ← List.cons_append]
        exact List.prefix_append _ _
  | cons x before ih =>
      rw [List.mem_cons, not_or] at hbefore
      obtain ⟨hne, hrest⟩ := hbefore
      rw [List.cons_append, findPattern, if_neg, ih hrest]
      · rfl
      · rw [List.isPrefixOf_iff_prefix, List.cons_prefix_cons]
        intro h
        exact hne h.1

/-! ### Cuts -/

/-- A count that is an `int`, as `substr` takes it where there is room for so many bytes. -/
theorem min_ofInt_eq_iff {count : Int} {room n : Nat} (hroom : room < 2 ^ 63) (hn : n ≤ room)
    (hlow : -2 ^ 31 ≤ count) (hhigh : count < 2 ^ 31) :
    min (SizeT.ofInt count) room = n ↔ count = n ∨ (room = n ∧ (count < 0 ∨ n ≤ count)) := by
  rcases Int.lt_or_le count 0 with hneg | hnonneg
  · have hhuge := SizeT.le_ofInt_of_neg hneg (by omega)
    omega
  · have hsame := SizeT.ofInt_of_nonneg hnonneg (by omega)
    omega

/-- The cut from `start` to `stop` is as long as the host exactly if it ends with the host, or if it takes
the rest of a url that ends with the host. -/
theorem cut_length_iff {start stop wraps : Int} {hostStart host tail : Nat} (hstart : 0 ≤ start)
    (hhigh : start < 2 ^ 31) (hwraps : (hostStart : Int) = start + 2 ^ 32 * wraps)
    (hlow' : -2 ^ 31 ≤ stop) (hhigh' : stop < 2 ^ 31) (hlt : hostStart + host + tail < 2 ^ 63)
    (hnil : tail = 0 → stop = start - 1) :
    (¬ (stop - start < -2 ^ 31 ∨ 2 ^ 31 ≤ stop - start) ∧
      min (SizeT.ofInt (stop - start)) (hostStart + host + tail - start.toNat) = host) ↔
    stop = start + host ∨ (tail = 0 ∧ start = hostStart) := by
  constructor
  · intro h
    obtain ⟨hint, hcut⟩ := h
    rw [min_ofInt_eq_iff (by omega) (by omega) (by omega) (by omega)] at hcut
    omega
  · intro h
    have hint : ¬ (stop - start < -2 ^ 31 ∨ 2 ^ 31 ≤ stop - start) := by omega
    refine ⟨hint, ?_⟩
    rw [min_ofInt_eq_iff (by omega) (by omega) (by omega) (by omega)]
    omega

/-! ### Urls -/

def urlDelimiters : List Byte := [ascii ':', ascii '/', ascii '?']

def schemeSeparator : List Byte := [ascii ':', ascii '/', ascii '/']

/-- A url `scheme://host[:port][/path][?query]`; the tail is what follows the host. -/
structure AnnounceUrl where
  scheme : List Byte
  host : List Byte
  tail : List Byte
  scheme_plain : ∀ b ∈ scheme, b ∉ urlDelimiters
  host_plain : ∀ b ∈ host, b ∉ urlDelimiters
  tail_delimited : tail = [] ∨ ∃ b ∈ urlDelimiters, ∃ rest, tail = b :: rest
  size_lt : scheme.length + 3 + host.length + tail.length < 2 ^ 63

namespace AnnounceUrl

def url (u : AnnounceUrl) : ByteString :=
  ⟨u.scheme ++ (schemeSeparator ++ (u.host ++ u.tail)), by
    have hlt := u.size_lt
    rw [schemeSeparator]
    simp only [List.length_append, List.length_cons, List.length_nil]
    omega⟩

def hostname (u : AnnounceUrl) : ByteString :=
  ⟨u.host, by
    have hlt := u.size_lt
    omega⟩

def hostStart (u : AnnounceUrl) : Nat := u.scheme.length + 3

def hostEnd (u : AnnounceUrl) : Nat := u.hostStart + u.host.length

/-- Where the host starts, as an `int`. -/
def startIndex (u : AnnounceUrl) : Int := SizeT.toInt32 u.hostStart

/-- Where the byte last occurs in the tail is, as an `int`, where the host ends. -/
def EndsAt (u : AnnounceUrl) (b : Byte) : Prop :=
  ∃ i, findLastOf b u.tail = some i ∧ SizeT.toInt32 (u.hostEnd + i) = u.startIndex + u.host.length

/-- The tail has a colon that is taken for the one before the port. -/
def ColonTaken (u : AnnounceUrl) : Prop :=
  ∃ i, findLastOf (ascii ':') u.tail = some i ∧ u.startIndex ≤ SizeT.toInt32 (u.hostEnd + i)

/-- The condition on a url under which its host is found. The first two parts hold of every url whose
scheme is shorter than `2 ^ 31 - 3`. -/
structure HostFound (u : AnnounceUrl) : Prop where
  start_nonneg : 0 ≤ u.startIndex
  host_there : u.host <+: u.url.bytes.drop u.startIndex.toNat
  end_found : (u.tail = [] ∧ u.startIndex = u.hostStart) ∨ u.EndsAt (ascii ':') ∨
    (u.EndsAt (ascii '/') ∧ ¬ u.ColonTaken)

variable (u : AnnounceUrl)

theorem size_url : u.url.size = u.hostEnd + u.tail.length := by
  have hlength : schemeSeparator.length = 3 := rfl
  rw [ByteString.size, url]
  dsimp only
  rw [List.length_append, List.length_append, List.length_append, hlength, hostEnd, hostStart]
  omega

theorem drop_url : u.url.bytes.drop u.hostStart = u.host ++ u.tail := by
  have hlength : (u.scheme ++ schemeSeparator).length = u.hostStart := by
    rw [List.length_append, hostStart]
    rfl
  have hbytes : u.url.bytes = (u.scheme ++ schemeSeparator) ++ (u.host ++ u.tail) :=
    (List.append_assoc _ _ _).symm
  rw [hbytes, ← hlength, List.drop_left]

theorem not_mem_of_plain {xs : List Byte} (hplain : ∀ b ∈ xs, b ∉ urlDelimiters) {b : Byte}
    (hb : b ∈ urlDelimiters) : b ∉ xs := fun h => hplain b h hb

theorem findPattern_url : findPattern schemeSeparator u.url.bytes = some u.scheme.length :=
  findPattern_append (not_mem_of_plain u.scheme_plain (by decide)) _

/-- The last occurrence of a delimiter is in the tail, or in the separator behind the scheme. -/
theorem findLastOf_url {b : Byte} {i : Nat} (hb : b ∈ urlDelimiters)
    (hseparator : findLastOf b schemeSeparator = some i) :
    findLastOf b u.url.bytes =
      match findLastOf b u.tail with
      | some j => some (u.hostEnd + j)
      | none => some (u.scheme.length + i) := by
  have hhost := findLastOf_eq_none_iff.mpr (not_mem_of_plain u.host_plain hb)
  rw [url]
  dsimp only
  rw [findLastOf_append, findLastOf_append, findLastOf_append, hhost, hseparator]
  cases findLastOf b u.tail with
  | some j =>
      have hlength : schemeSeparator.length = 3 := rfl
      dsimp only
      rw [hostEnd, hostStart, hlength, Option.some.injEq]
      omega
  | none => rfl

theorem hostnameStartIndex_url : hostnameStartIndex u.url = u.startIndex := by
  have hlt := u.size_lt
  have hfound : findPattern [ascii ':', ascii '/', ascii '/'] u.url.bytes = some u.scheme.length :=
    u.findPattern_url
  rw [hostnameStartIndex, hfound, positionOrNpos, SizeT.add_of_lt (by omega), startIndex, hostStart]

/-- The index of the last colon: of one in the tail, or of the one before the host. -/
theorem lastIndexOf_colon : lastIndexOf (ascii ':') u.url =
    match findLastOf (ascii ':') u.tail with
    | some i => SizeT.toInt32 (u.hostEnd + i)
    | none => SizeT.toInt32 u.scheme.length := by
  rw [lastIndexOf, @findLastOf_url u _ 0 (by decide) (by decide)]
  cases findLastOf (ascii ':') u.tail with
  | some i => rfl
  | none => rfl

theorem lastIndexOf_slash : lastIndexOf (ascii '/') u.url =
    match findLastOf (ascii '/') u.tail with
    | some i => SizeT.toInt32 (u.hostEnd + i)
    | none => SizeT.toInt32 (u.scheme.length + 2) := by
  rw [lastIndexOf, @findLastOf_url u _ 2 (by decide) (by decide)]
  cases findLastOf (ascii '/') u.tail with
  | some i => rfl
  | none => rfl

/-- The bytes that `substr` takes are the host exactly if they begin with it and are as many. -/
theorem substr_eq_hostname_iff (pos count : Nat) : substr u.url pos count = some u.hostname ↔
    pos ≤ u.url.size ∧ u.host <+: u.url.bytes.drop pos ∧
      min count (u.url.size - pos) = u.host.length := by
  have hbytes : ∀ name : ByteString, name = u.hostname ↔ name.bytes = u.host :=
    fun name => ByteString.ext_iff
  rw [substr]
  split
  · rename_i hpast
    constructor
    · intro h
      cases h
    · intro h
      exact absurd h.1 (Nat.not_le.mpr hpast)
  · rename_i hwithin
    rw [Option.some.injEq, hbytes]
    dsimp only
    have hcount : ((u.url.bytes.drop pos).take count).length = min count (u.url.size - pos) := by
      rw [List.length_take, List.length_drop, ByteString.size]
    constructor
    · intro h
      refine ⟨Nat.le_of_not_lt hwithin, ?_, ?_⟩
      · rw [← h]
        exact List.take_prefix _ _
      · rw [← hcount, h]
    · intro h
      obtain ⟨-, hprefix, hlength⟩ := h
      rw [← hcount] at hlength
      exact List.IsPrefix.eq_of_length
        (List.prefix_of_prefix_length_le (List.take_prefix _ _) hprefix hlength.le) hlength

variable {u}

/-- Before the host, the separator is found at the three indices before its start. -/
theorem toInt32_separator (hstart : 0 ≤ u.startIndex) {i : Nat} (hi : i < 3) :
    SizeT.toInt32 (u.scheme.length + i) = u.startIndex - 3 + i := by
  obtain ⟨k, hk, hlow, hhigh⟩ := SizeT.toInt32_spec (u.scheme.length + i)
  obtain ⟨k', hk', hlow', hhigh'⟩ := SizeT.toInt32_spec u.hostStart
  rw [← startIndex] at hk' hlow' hhigh'
  rw [hostStart] at hk'
  omega

/-- The last slash ends the host if it is one of the tail, and comes before it otherwise. -/
theorem lastIndexOf_slash_eq_iff (hstart : 0 ≤ u.startIndex) :
    lastIndexOf (ascii '/') u.url = u.startIndex + u.host.length ↔ u.EndsAt (ascii '/') := by
  rw [lastIndexOf_slash, EndsAt]
  cases findLastOf (ascii '/') u.tail with
  | some i => simp
  | none =>
      dsimp only
      rw [toInt32_separator hstart (by decide)]
      constructor
      · intro h
        omega
      · intro h
        obtain ⟨i, hnone, -⟩ := h
        cases hnone

theorem lastIndexOf_colon_of_endsAt (h : u.EndsAt (ascii ':')) :
    lastIndexOf (ascii ':') u.url = u.startIndex + u.host.length := by
  obtain ⟨i, hlast, hindex⟩ := h
  rw [lastIndexOf_colon, hlast]
  exact hindex

/-- The last colon is taken if it is one of the tail at an index that is not before the host. -/
theorem colonTaken_iff (hstart : 0 ≤ u.startIndex) :
    u.ColonTaken ↔ u.startIndex ≤ lastIndexOf (ascii ':') u.url := by
  rw [lastIndexOf_colon, ColonTaken]
  cases findLastOf (ascii ':') u.tail with
  | some i => simp
  | none =>
      have hbefore := @toInt32_separator u hstart 0 (by decide)
      rw [Nat.add_zero] at hbefore
      dsimp only
      rw [hbefore]
      constructor
      · intro h
        obtain ⟨i, hnone, -⟩ := h
        cases hnone
      · intro h
        omega

/-- The index that ends the cut is where the host ends for one of two reasons. -/
theorem hostnameEndIndex_eq_iff (hstart : 0 ≤ u.startIndex) :
    hostnameEndIndex u.url = u.startIndex + u.host.length ↔
      u.EndsAt (ascii ':') ∨ (u.EndsAt (ascii '/') ∧ ¬ u.ColonTaken) := by
  rw [hostnameEndIndex, hostnameStartIndex_url, colonTaken_iff hstart]
  split
  · rename_i hbefore
    rw [lastIndexOf_slash_eq_iff hstart]
    constructor
    · intro h
      exact Or.inr ⟨h, by omega⟩
    · intro h
      rcases h with h | h
      · have := lastIndexOf_colon_of_endsAt h
        omega
      · exact h.1
  · rename_i hafter
    constructor
    · intro h
      obtain ⟨i, hlast, -⟩ := (colonTaken_iff hstart).mpr (by omega)
      refine Or.inl ⟨i, hlast, ?_⟩
      rw [lastIndexOf_colon, hlast] at h
      exact h
    · intro h
      rcases h with h | h
      · exact lastIndexOf_colon_of_endsAt h
      · omega

/-- Without a tail the last slash is the one before the host. -/
theorem hostnameEndIndex_of_nil (hstart : 0 ≤ u.startIndex) (htail : u.tail = []) :
    hostnameEndIndex u.url = u.startIndex - 1 := by
  have hcolon := @toInt32_separator u hstart 0 (by decide)
  rw [Nat.add_zero] at hcolon
  have hslash := @toInt32_separator u hstart 2 (by decide)
  rw [hostnameEndIndex, hostnameStartIndex_url, lastIndexOf_colon, lastIndexOf_slash, htail,
    findLastOf_nil, findLastOf_nil]
  dsimp only
  rw [hcolon, hslash, if_pos (by omega)]
  omega

/-- Where the end of the cut is one of the ends of the host, or the cut takes the rest of a url without a
tail. -/
theorem end_found_iff (hstart : 0 ≤ u.startIndex) :
    ((u.tail = [] ∧ u.startIndex = u.hostStart) ∨ u.EndsAt (ascii ':') ∨
      (u.EndsAt (ascii '/') ∧ ¬ u.ColonTaken)) ↔
    hostnameEndIndex u.url = u.startIndex + u.host.length ∨
      (u.tail = [] ∧ u.startIndex = u.hostStart) := by
  rw [hostnameEndIndex_eq_iff hstart, or_comm]

theorem hostnameEndIndex_bounds : -2 ^ 31 ≤ hostnameEndIndex u.url ∧ hostnameEndIndex u.url < 2 ^ 31 := by
  rw [hostnameEndIndex]
  split
  · obtain ⟨-, -, hbounds⟩ := SizeT.toInt32_spec (positionOrNpos (findLastOf (ascii '/') u.url.bytes))
    exact hbounds
  · obtain ⟨-, -, hbounds⟩ := SizeT.toInt32_spec (positionOrNpos (findLastOf (ascii ':') u.url.bytes))
    exact hbounds

/-- **When `get_hostname` returns the host**, for every url. -/
theorem getHostname_url_iff (u : AnnounceUrl) :
    getHostname u.url = some u.hostname ↔ u.HostFound := by
  have hlt := u.size_lt
  have hsize : u.url.size = u.hostStart + u.host.length + u.tail.length := u.size_url
  have hhostStart : u.hostStart + u.host.length + u.tail.length < 2 ^ 63 := hlt
  obtain ⟨wraps, hwraps, hlow, hhigh⟩ := SizeT.toInt32_spec u.hostStart
  rw [← startIndex] at hwraps hlow hhigh
  rw [getHostname, hostnameStartIndex_url]
  rcases Int.lt_or_le u.startIndex 0 with hneg | hstart
  · have hfar := SizeT.le_ofInt_of_neg hneg (by omega)
    constructor
    · intro h
      split at h
      · cases h
      · have hwithin := ((u.substr_eq_hostname_iff _ _).mp h).1
        omega
    · intro h
      have := h.start_nonneg
      omega
  · obtain ⟨hendLow, hendHigh⟩ := u.hostnameEndIndex_bounds
    have hnil : u.tail.length = 0 → hostnameEndIndex u.url = u.startIndex - 1 :=
      fun h => hostnameEndIndex_of_nil hstart (List.length_eq_zero_iff.mp h)
    have hcut := cut_length_iff hstart hhigh hwraps hendLow hendHigh hhostStart hnil
    rw [List.length_eq_zero_iff, ← end_found_iff hstart, ← hsize] at hcut
    have hpos := SizeT.ofInt_of_nonneg hstart (by omega)
    have hle : u.startIndex.toNat ≤ u.url.size := by omega
    constructor
    · intro h
      split at h
      · cases h
      · rename_i hint
        obtain ⟨-, hthere, hlength⟩ := (u.substr_eq_hostname_iff _ _).mp h
        rw [hpos] at hthere hlength
        exact ⟨hstart, hthere, hcut.mp ⟨hint, hlength⟩⟩
    · intro h
      obtain ⟨hint, hlength⟩ := hcut.mpr h.end_found
      rw [if_neg hint, hpos]
      exact (u.substr_eq_hostname_iff _ _).mpr ⟨hle, h.host_there, hlength⟩

/-! Of a url that is shorter than `2 ^ 31`, every position in the tail is an index. -/

section Short

theorem startIndex_of_lt (hlt : u.url.size < 2 ^ 31) : u.startIndex = u.hostStart := by
  have hsize := u.size_url
  have hend : u.hostEnd = u.hostStart + u.host.length := rfl
  exact SizeT.toInt32_of_lt (by omega)

theorem toInt32_of_findLastOf (hlt : u.url.size < 2 ^ 31) {b : Byte} {i : Nat}
    (hlast : findLastOf b u.tail = some i) :
    SizeT.toInt32 (u.hostEnd + i) = u.startIndex + u.host.length + i := by
  obtain ⟨before, rest, hsplit, -, hi⟩ := findLastOf_eq_some_iff.mp hlast
  have hlength := congrArg List.length hsplit
  rw [List.length_append, List.length_cons] at hlength
  have hsize := u.size_url
  have hend : u.hostEnd = u.hostStart + u.host.length := rfl
  rw [startIndex_of_lt hlt, SizeT.toInt32_of_lt (by omega)]
  omega

theorem endsAt_iff_of_lt (hlt : u.url.size < 2 ^ 31) (b : Byte) :
    u.EndsAt b ↔ findLastOf b u.tail = some 0 := by
  constructor
  · intro h
    obtain ⟨i, hlast, hend⟩ := h
    have hvalue := toInt32_of_findLastOf hlt hlast
    rw [hlast, Option.some.injEq]
    omega
  · intro h
    have hvalue := toInt32_of_findLastOf hlt h
    exact ⟨0, h, by omega⟩

theorem not_colonTaken_iff_of_lt (hlt : u.url.size < 2 ^ 31) :
    ¬ u.ColonTaken ↔ findLastOf (ascii ':') u.tail = none := by
  constructor
  · intro h
    cases hlast : findLastOf (ascii ':') u.tail with
    | none => rfl
    | some i =>
        have hvalue := toInt32_of_findLastOf hlt hlast
        exact absurd ⟨i, hlast, by omega⟩ h
  · intro hnone h
    obtain ⟨i, hlast, -⟩ := h
    rw [hnone] at hlast
    cases hlast

/-- The last colon of the tail must be its first byte, or else its last slash. -/
theorem hostFound_iff_of_lt (hlt : u.url.size < 2 ^ 31) :
    u.HostFound ↔ u.tail = [] ∨ findLastOf (ascii ':') u.tail = some 0 ∨
      (findLastOf (ascii ':') u.tail = none ∧ findLastOf (ascii '/') u.tail = some 0) := by
  have hstart := startIndex_of_lt hlt
  constructor
  · intro h
    have hfound := h.end_found
    rw [endsAt_iff_of_lt hlt, endsAt_iff_of_lt hlt, not_colonTaken_iff_of_lt hlt] at hfound
    rcases hfound with ⟨htail, -⟩ | hcolon | ⟨hslash, hnone⟩
    · exact Or.inl htail
    · exact Or.inr (Or.inl hcolon)
    · exact Or.inr (Or.inr ⟨hnone, hslash⟩)
  · intro h
    refine ⟨by omega, ?_, ?_⟩
    · rw [hstart, Int.toNat_natCast, u.drop_url]
      exact List.prefix_append _ _
    · rw [endsAt_iff_of_lt hlt, endsAt_iff_of_lt hlt, not_colonTaken_iff_of_lt hlt]
      rcases h with htail | hcolon | ⟨hnone, hslash⟩
      · exact Or.inl ⟨htail, hstart⟩
      · exact Or.inr (Or.inl hcolon)
      · exact Or.inr (Or.inr ⟨hslash, hnone⟩)

end Short

end AnnounceUrl

/-! ### Groups -/

/-- The urls with this host, each once and in the order of their first occurrences. -/
def urlsOf (urls : List AnnounceUrl) (name : ByteString) : List ByteString :=
  ((urls.filter fun u => u.hostname = name).map AnnounceUrl.url).eraseDups

/-- Each host of these urls has a tracker, with the urls of the host. -/
def Listed (urls : List AnnounceUrl) (manager : TrackerManager) : Prop :=
  ∀ name, (manager.find name).map (fun tracker => tracker.announceUrl.list) =
    if name ∈ urls.map AnnounceUrl.hostname then some (urlsOf urls name) else none

/-- The trackers stand for the hosts of these urls. -/
structure Grouped (urls : List AnnounceUrl) (manager : TrackerManager) : Prop where
  keys : (manager.trackerConnections.map Prod.fst).Nodup
  lists : Listed urls manager
  same_tracker : ∀ u ∈ urls, ∀ v ∈ urls,
    (∃ name tracker, manager.find name = some tracker ∧ u.url ∈ tracker.announceUrl.list ∧
      v.url ∈ tracker.announceUrl.list) ↔ u.hostname = v.hostname

theorem mem_urlsOf {urls : List AnnounceUrl} {name url : ByteString} :
    url ∈ urlsOf urls name ↔ ∃ u ∈ urls, u.hostname = name ∧ u.url = url := by
  rw [urlsOf, List.mem_eraseDups]
  simp [and_assoc]

theorem urlsOf_of_not_mem {urls : List AnnounceUrl} {name : ByteString}
    (h : name ∉ urls.map AnnounceUrl.hostname) : urlsOf urls name = [] := by
  rw [List.eq_nil_iff_forall_not_mem]
  intro url hurl
  obtain ⟨u, hu, hname, -⟩ := mem_urlsOf.mp hurl
  exact h (List.mem_map.mpr ⟨u, hu, hname⟩)

theorem eraseDups_append_singleton (urls : List ByteString) (url : ByteString) :
    (urls ++ [url]).eraseDups =
      if url ∈ urls.eraseDups then urls.eraseDups else urls.eraseDups ++ [url] := by
  rw [List.eraseDups_append, List.removeAll]
  by_cases hold : url ∈ urls
  · rw [if_pos (List.mem_eraseDups.mpr hold), List.filter_cons_of_neg (by simpa using hold)]
    simp
  · rw [if_neg fun h => hold (List.mem_eraseDups.mp h), List.filter_cons_of_pos (by simpa using hold),
      List.filter_nil, List.eraseDups_cons]
    simp

theorem urlsOf_append (urls : List AnnounceUrl) (u : AnnounceUrl) (name : ByteString) :
    urlsOf (urls ++ [u]) name =
      if name = u.hostname then
        if u.url ∈ urlsOf urls name then urlsOf urls name else urlsOf urls name ++ [u.url]
      else urlsOf urls name := by
  rw [urlsOf, List.filter_append, List.map_append]
  by_cases hname : u.hostname = name
  · rw [if_pos hname.symm, List.filter_cons_of_pos (by simp [hname]), List.filter_nil, List.map_singleton]
    exact eraseDups_append_singleton _ _
  · rw [if_neg (Ne.symm hname), List.filter_cons_of_neg (by simp [hname]), List.filter_nil, List.map_nil,
      List.append_nil]
    rfl

/-- One turn adds the url to the tracker of its host. -/
theorem find_initiatlizeTracker {manager manager' : TrackerManager} {url name : ByteString}
    (hname : getHostname url = some name)
    (h : manager.initiatlizeTracker url = some manager') (n : ByteString) :
    manager'.find n =
      if n = name then some (TrackerManager.noteUrl url ((manager.find n).getD (Tracker.fresh n)))
      else manager.find n := by
  rw [TrackerManager.initiatlizeTracker, hname] at h
  have heq := (Option.some.inj h).symm
  rw [heq, TrackerManager.find_change]
  clear heq h
  rw [TrackerManager.find]
  dsimp only
  by_cases hn : n = name
  · rw [if_pos hn, if_pos hn, hn]
    split
    · rename_i hold
      obtain ⟨tracker, htracker⟩ := Option.isSome_iff_exists.mp hold
      rw [TrackerManager.find, htracker]
      rfl
    · rename_i hnew
      rw [Option.not_isSome_iff_eq_none] at hnew
      rw [List.lookup_append, TrackerManager.find, hnew, List.lookup_cons_self]
      rfl
  · have hne : (n == name) = false := beq_eq_false_iff_ne.mpr hn
    rw [if_neg hn, if_neg hn]
    split
    · rfl
    · rw [List.lookup_append, List.lookup_cons, hne]
      exact Option.or_none

theorem Listed.list_eq {urls : List AnnounceUrl} {manager : TrackerManager} (h : Listed urls manager)
    (name : ByteString) :
    ((manager.find name).getD (Tracker.fresh name)).announceUrl.list = urlsOf urls name := by
  have hlist := h name
  cases hfind : manager.find name with
  | none =>
      rw [hfind] at hlist
      split at hlist
      · cases hlist
      · rename_i hnew
        rw [urlsOf_of_not_mem hnew]
        rfl
  | some tracker =>
      rw [hfind] at hlist
      split at hlist
      · exact Option.some.inj hlist
      · cases hlist

theorem Listed.initiatlizeTracker {urls : List AnnounceUrl} {manager manager' : TrackerManager}
    {u : AnnounceUrl} (h : Listed urls manager) (hname : getHostname u.url = some u.hostname)
    (hturn : manager.initiatlizeTracker u.url = some manager') : Listed (urls ++ [u]) manager' := by
  intro name
  rw [find_initiatlizeTracker hname hturn, urlsOf_append, List.map_append, List.map_singleton]
  by_cases hn : name = u.hostname
  · rw [if_pos hn, if_pos hn, if_pos (List.mem_append_right _ (List.mem_singleton.mpr hn)), Option.map_some,
      TrackerManager.noteUrl]
    dsimp only
    rw [h.list_eq name]
  · have hmem : name ∈ urls.map AnnounceUrl.hostname ++ [u.hostname] ↔
        name ∈ urls.map AnnounceUrl.hostname := by simp [hn]
    rw [if_neg hn, if_neg hn, h name]
    simp only [hmem]

theorem Listed.foldlM {seen urls : List AnnounceUrl} {manager : TrackerManager} (h : Listed seen manager)
    (hnames : ∀ u ∈ urls, getHostname u.url = some u.hostname) :
    ∃ manager', (urls.map AnnounceUrl.url).foldlM TrackerManager.initiatlizeTracker manager =
      some manager' ∧ Listed (seen ++ urls) manager' := by
  induction urls generalizing seen manager with
  | nil => exact ⟨manager, rfl, by rwa [List.append_nil]⟩
  | cons u urls ih =>
      have hname := hnames u List.mem_cons_self
      obtain ⟨next, hturn⟩ : ∃ next, manager.initiatlizeTracker u.url = some next := by
        rw [TrackerManager.initiatlizeTracker, hname]
        exact ⟨_, rfl⟩
      obtain ⟨manager', hrest, hlisted⟩ := ih (h.initiatlizeTracker hname hturn) fun v hv =>
        hnames v (List.mem_cons_of_mem _ hv)
      refine ⟨manager', ?_, ?_⟩
      · rw [List.map_cons, List.foldlM_cons, hturn]
        exact hrest
      · rwa [List.append_assoc, List.singleton_append] at hlisted

theorem Listed.same_tracker_iff {urls : List AnnounceUrl} {manager : TrackerManager}
    (h : Listed urls manager) (hnames : ∀ u ∈ urls, getHostname u.url = some u.hostname)
    {u v : AnnounceUrl} (hu : u ∈ urls) (hv : v ∈ urls) :
    (∃ name tracker, manager.find name = some tracker ∧ u.url ∈ tracker.announceUrl.list ∧
      v.url ∈ tracker.announceUrl.list) ↔ u.hostname = v.hostname := by
  have hhost : ∀ {w name}, w ∈ urls → w.url ∈ urlsOf urls name → w.hostname = name := by
    intro w name hw hin
    obtain ⟨w', hw', hname, hurl⟩ := mem_urlsOf.mp hin
    have hsame := hnames w' hw'
    rw [hurl, hnames w hw, Option.some.injEq] at hsame
    rw [hsame, hname]
  constructor
  · intro hshared
    obtain ⟨name, tracker, hfind, huin, hvin⟩ := hshared
    have hlist := h.list_eq name
    rw [hfind, Option.getD_some] at hlist
    rw [hlist] at huin hvin
    rw [hhost hu huin, hhost hv hvin]
  · intro heq
    have hlist := h u.hostname
    rw [if_pos (List.mem_map_of_mem hu)] at hlist
    obtain ⟨tracker, hfind, htracker⟩ := Option.map_eq_some_iff.mp hlist
    refine ⟨u.hostname, tracker, hfind, ?_, ?_⟩
    · rw [htracker]
      exact mem_urlsOf.mpr ⟨u, hu, rfl, rfl⟩
    · rw [htracker]
      exact mem_urlsOf.mpr ⟨v, hv, heq.symm, rfl⟩

/-- **Host grouping**: the hosts of the urls are found and the trackers are the hosts with their urls,
exactly if the condition of `get_hostname` holds of each url. -/
theorem hosts_grouped_iff (urls : List AnnounceUrl) :
    ((∀ u ∈ urls, getHostname u.url = some u.hostname) ∧
      ∃ manager, TrackerManager.initiatlizeTrackers (urls.map AnnounceUrl.url) = some manager ∧
        Grouped urls manager) ↔
    ∀ u ∈ urls, u.HostFound := by
  constructor
  · intro h u hu
    exact u.getHostname_url_iff.mp (h.1 u hu)
  · intro h
    have hnames : ∀ u ∈ urls, getHostname u.url = some u.hostname := fun u hu =>
      u.getHostname_url_iff.mpr (h u hu)
    have hempty : Listed [] ⟨false, [], [], [], false⟩ := fun _ => rfl
    obtain ⟨manager, hmanager, hlisted⟩ := hempty.foldlM hnames
    rw [List.nil_append] at hlisted
    have hinitiated : TrackerWorld.Initiated ⟨false, [], [], [], false⟩ :=
      ⟨List.nodup_nil, fun _ hentry => absurd hentry List.not_mem_nil, rfl, rfl⟩
    refine ⟨hnames, manager, hmanager, ?_, hlisted, ?_⟩
    · exact (TrackerWorld.initiatlizeTrackers_initiated hinitiated hmanager).keys
    · intro u hu v hv
      exact hlisted.same_tracker_iff hnames hu hv

/-- A url without a port and with two slashes in its path. -/
def portlessUrl : AnnounceUrl where
  scheme := "http".toList.map ascii
  host := "h".toList.map ascii
  tail := "/a/announce".toList.map ascii
  scheme_plain := List.all_iff_forall_prop.mp rfl
  host_plain := List.all_iff_forall_prop.mp rfl
  tail_delimited := Or.inr ⟨ascii '/', by decide, "a/announce".toList.map ascii, rfl⟩
  size_lt := by decide

/-- The first segment of its path is taken for a part of the host. -/
theorem hosts_grouped_portless :
    ¬ ((∀ u ∈ [portlessUrl], getHostname u.url = some u.hostname) ∧
      ∃ manager, TrackerManager.initiatlizeTrackers ([portlessUrl].map AnnounceUrl.url) = some manager ∧
        Grouped [portlessUrl] manager) ∧
    getHostname portlessUrl.url = some (.ofString "h/a") := by
  have hname : getHostname portlessUrl.url = some (.ofString "h/a") := by decide +kernel
  refine ⟨fun h => ?_, hname⟩
  have hhost := h.1 portlessUrl (List.mem_singleton.mpr rfl)
  rw [hname] at hhost
  exact absurd hhost (by decide +kernel)

end TorrentEngine
