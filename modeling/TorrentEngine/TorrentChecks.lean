import TorrentEngine.FileTiling

/-! What `parse_transcription` makes of an arbitrary dictionary: when it returns false, when it accepts,
and when a lookup or the arithmetic goes wrong before it returns. -/

namespace TorrentEngine

open Bencode

namespace TorrentFile

/-- The `for` loops over the url lists. -/
def pushUrls : List Data → List ByteString → Except Fault (List ByteString)
  | [], trackers => pure trackers
  | url :: urls, trackers => do
      let url ← url.getAsString
      pushUrls urls (trackers ++ [url])

def pushUrlLists : List Data → List ByteString → Except Fault (List ByteString)
  | [], trackers => pure trackers
  | urlList :: urlPack, trackers => do
      let urls ← urlList.getAsList
      let trackers ← pushUrls urls trackers
      pushUrlLists urlPack trackers

def getTrackerUrls (torrent : TorrentFile) : Except Fault (List ByteString) := do
  let trackers ← match find "announce" torrent.transcibe with
    | none => pure []
    | some found => do
        let announceUrl ← found.getAsString
        pure [announceUrl]
  match find "announce-list" torrent.transcibe with
  | none => pure trackers
  | some found => do
      let urlPack ← found.getAsList
      pushUrlLists urlPack trackers

/-! ### The files of an info dictionary -/

/-- A file entry with an integer as length and with a path. -/
def Complete (file : Data) : Prop :=
  ∃ fileMap p length q, file = .dictionary fileMap p ∧
    find "length" fileMap = some (.integer length q) ∧ contains "path" fileMap = true

/-- A file entry that lacks the length, or that has an integer as length and lacks the path. -/
def Incomplete (file : Data) : Prop :=
  ∃ fileMap p, file = .dictionary fileMap p ∧
    (find "length" fileMap = none ∨
      ∃ length q, find "length" fileMap = some (.integer length q) ∧ contains "path" fileMap = false)

/-- An incomplete file comes after complete ones. -/
def CutShort (files : List Data) : Prop :=
  ∃ before file after, files = before ++ file :: after ∧ (∀ file ∈ before, Complete file) ∧
    Incomplete file

/-- The lengths that are added up, until a file ends the loop. -/
def lengthsAdded : List Data → List Int64
  | .dictionary fileMap _ :: files =>
      match find "length" fileMap with
      | some (.integer length _) =>
          length :: if contains "path" fileMap then lengthsAdded files else []
      | _ => []
  | _ => []

/-- The values of an `int64_t`. -/
def InRange (n : Int) : Prop := -2 ^ 63 ≤ n ∧ n < 2 ^ 63

/-- Every sum on the way is an `int64_t`. -/
def Accumulates : Int → List Int64 → Prop
  | _, [] => True
  | total, length :: lengths =>
      InRange (total + length.toInt) ∧ Accumulates (total + length.toInt) lengths

theorem addSigned_of_inRange {a b : Int64} (h : InRange (a.toInt + b.toInt)) :
    ∃ c, addSigned a b = .ok c ∧ c.toInt = a.toInt + b.toInt := by
  have hadd : addSigned a b = .ok (a + b) := if_pos h
  exact ⟨a + b, hadd, addSigned_spec hadd⟩

theorem addSigned_of_not_inRange {a b : Int64} (h : ¬ InRange (a.toInt + b.toInt)) :
    addSigned a b = .error .undefined := if_neg h

section Files

variable {fileMap : Dictionary} {p q : SourceStats} {length : Int64} {files : List Data}
  {total size : Int64}

theorem addFiles_measured (hlength : find "length" fileMap = some (.integer length q)) :
    addFiles (.dictionary fileMap p :: files) total = (do
      let total ← addSigned total length
      if contains "path" fileMap then addFiles files total else pure none) := by
  rw [addFiles]
  simp only [Data.getAsDictionary, hlength, Data.getAsInteger, bind, Except.bind]

theorem addFiles_unmeasured (hlength : find "length" fileMap = none) :
    addFiles (.dictionary fileMap p :: files) total = .ok none := by
  rw [addFiles]
  simp only [Data.getAsDictionary, hlength, bind, Except.bind]
  rfl

theorem lengthsAdded_measured (hlength : find "length" fileMap = some (.integer length q)) :
    lengthsAdded (.dictionary fileMap p :: files) =
      length :: if contains "path" fileMap then lengthsAdded files else [] := by
  rw [lengthsAdded, hlength]

theorem cutShort_cons_complete {file : Data} (hfile : Complete file) :
    CutShort (file :: files) ↔ CutShort files := by
  constructor
  · rintro ⟨before, cut, after, heq, hbefore, hcut⟩
    cases before with
    | nil =>
        cases heq
        obtain ⟨fileMap, p, length, q, rfl, hlength, hpath⟩ := hfile
        obtain ⟨fileMap', p', heq, hnone | ⟨length', q', -, hpath'⟩⟩ := hcut
        · cases heq
          rw [hlength] at hnone
          cases hnone
        · cases heq
          rw [hpath] at hpath'
          cases hpath'
    | cons first before =>
        cases heq
        exact ⟨before, cut, after, rfl, fun f hf => hbefore f (List.mem_cons_of_mem _ hf), hcut⟩
  · rintro ⟨before, cut, after, rfl, hbefore, hcut⟩
    exact ⟨file :: before, cut, after, rfl, List.forall_mem_cons.mpr ⟨hfile, hbefore⟩, hcut⟩

theorem cutShort_cons_incomplete {file : Data} (hfile : Incomplete file) : CutShort (file :: files) :=
  ⟨[], file, files, rfl, nofun, hfile⟩

theorem not_cutShort_nil : ¬ CutShort [] := by
  rintro ⟨before, file, after, heq, -⟩
  cases before <;> cases heq

theorem not_cutShort_cons {file : Data} (hcomplete : ¬ Complete file) (hincomplete : ¬ Incomplete file) :
    ¬ CutShort (file :: files) := by
  rintro ⟨before, cut, after, heq, hbefore, hcut⟩
  cases before with
  | nil =>
      cases heq
      exact hincomplete hcut
  | cons first before =>
      cases heq
      exact hcomplete (hbefore file List.mem_cons_self)

theorem not_cutShort_of_complete (h : ∀ file ∈ files, Complete file) : ¬ CutShort files := by
  induction files with
  | nil => exact not_cutShort_nil
  | cons file files ih =>
      obtain ⟨hfile, hfiles⟩ := List.forall_mem_cons.mp h
      rw [cutShort_cons_complete hfile]
      exact ih hfiles

/-- How the loop over the files ends. -/
inductive Added (files : List Data) (total : Int64) : Except Fault (Option Int64) → Prop
  | all {size : Int64} : (∀ file ∈ files, Complete file) → Accumulates total.toInt (lengthsAdded files) →
      size.toInt = total.toInt + ((lengthsAdded files).map Int64.toInt).sum →
      Added files total (.ok (some size))
  | cutShort : CutShort files → Accumulates total.toInt (lengthsAdded files) →
      Added files total (.ok none)
  | overflow : ¬ Accumulates total.toInt (lengthsAdded files) →
      Added files total (.error .undefined)
  | mistyped : ¬ (∀ file ∈ files, Complete file) → ¬ CutShort files →
      Accumulates total.toInt (lengthsAdded files) → Added files total (.error .badVariantAccess)

theorem added_mistyped {file : Data} (hadded : lengthsAdded (file :: files) = [])
    (hcomplete : ¬ Complete file) (hincomplete : ¬ Incomplete file) :
    Added (file :: files) total (.error .badVariantAccess) :=
  .mistyped (fun h => hcomplete (h file List.mem_cons_self))
    (not_cutShort_cons hcomplete hincomplete) (by rw [hadded]; trivial)

theorem added_complete {file : Data} {result : Except Fault (Option Int64)} {total' : Int64}
    (hfile : Complete file) (hadded : lengthsAdded (file :: files) = length :: lengthsAdded files)
    (htotal : total'.toInt = total.toInt + length.toInt) (hrange : InRange (total.toInt + length.toInt))
    (h : Added files total' result) : Added (file :: files) total result := by
  have haccumulates : Accumulates total.toInt (lengthsAdded (file :: files)) ↔
      Accumulates total'.toInt (lengthsAdded files) := by
    rw [hadded, Accumulates, ← htotal, and_iff_right (by rwa [htotal])]
  cases h with
  | all hfiles hsums hsize =>
      refine .all (List.forall_mem_cons.mpr ⟨hfile, hfiles⟩) (haccumulates.mpr hsums) ?_
      calc _ = total'.toInt + ((lengthsAdded files).map Int64.toInt).sum := hsize
        _ = total.toInt + (length.toInt + ((lengthsAdded files).map Int64.toInt).sum) := by
            rw [htotal, Int.add_assoc]
        _ = total.toInt + ((lengthsAdded (file :: files)).map Int64.toInt).sum := by
            rw [hadded, List.map_cons, List.sum_cons]
  | cutShort hcut hsums =>
      exact .cutShort ((cutShort_cons_complete hfile).mpr hcut) (haccumulates.mpr hsums)
  | overflow hsums => exact .overflow (mt haccumulates.mp hsums)
  | mistyped hfiles hcut hsums =>
      exact .mistyped (fun h => hfiles (List.forall_mem_cons.mp h).2)
        (mt (cutShort_cons_complete hfile).mp hcut) (haccumulates.mpr hsums)

/-- A file whose length is an integer. -/
theorem added_measured (hlength : find "length" fileMap = some (.integer length q))
    (ih : ∀ total, Added files total (addFiles files total)) :
    Added (.dictionary fileMap p :: files) total (addFiles (.dictionary fileMap p :: files) total) := by
  rw [addFiles_measured hlength]
  by_cases hrange : InRange (total.toInt + length.toInt)
  · obtain ⟨total', hadd, htotal⟩ := addSigned_of_inRange hrange
    rw [hadd]
    simp only [bind, Except.bind]
    split
    · rename_i hpath
      refine added_complete ⟨fileMap, p, length, q, rfl, hlength, hpath⟩ ?_ htotal hrange (ih total')
      rw [lengthsAdded_measured hlength, if_pos hpath]
    · rename_i hpath
      rw [Bool.not_eq_true] at hpath
      refine .cutShort (cutShort_cons_incomplete ⟨fileMap, p, rfl, Or.inr ⟨length, q, hlength, hpath⟩⟩) ?_
      rw [lengthsAdded_measured hlength, hpath]
      exact ⟨hrange, trivial⟩
  · rw [addSigned_of_not_inRange hrange]
    refine .overflow ?_
    rw [lengthsAdded_measured hlength]
    exact fun h => hrange h.1

/-- A file whose length is of another type. -/
theorem added_unmeasured {found : Data} (hlength : find "length" fileMap = some found)
    (hother : ∀ length q, found ≠ .integer length q) :
    Added (.dictionary fileMap p :: files) total (addFiles (.dictionary fileMap p :: files) total) := by
  have hmistyped : addFiles (.dictionary fileMap p :: files) total = .error .badVariantAccess := by
    rw [addFiles]
    simp only [Data.getAsDictionary, hlength, bind, Except.bind]
    cases found with
    | integer length q => exact absurd rfl (hother length q)
    | string _ _ => rfl
    | list _ _ => rfl
    | dictionary _ _ => rfl
  rw [hmistyped]
  refine added_mistyped ?_ ?_ ?_
  · rw [lengthsAdded, hlength]
    split
    · rename_i length q heq
      exact absurd (Option.some.inj heq) (hother length q)
    · rfl
  · rintro ⟨fileMap', p', length, q, heq, hfound, -⟩
    cases heq
    exact hother length q (Option.some.inj (hlength.symm.trans hfound))
  · rintro ⟨fileMap', p', heq, hnone | ⟨length, q, hfound, -⟩⟩
    · cases heq
      rw [hlength] at hnone
      cases hnone
    · cases heq
      exact hother length q (Option.some.inj (hlength.symm.trans hfound))

theorem addFiles_added (files : List Data) (total : Int64) :
    Added files total (addFiles files total) := by
  induction files generalizing total with
  | nil => exact .all nofun trivial (Int.add_zero _).symm
  | cons file files ih =>
      cases file with
      | dictionary fileMap p =>
          cases hlength : find "length" fileMap with
          | none =>
              rw [addFiles_unmeasured hlength]
              refine .cutShort (cutShort_cons_incomplete ⟨fileMap, p, rfl, Or.inl hlength⟩) ?_
              rw [lengthsAdded, hlength]
              trivial
          | some found =>
              cases found with
              | integer length q => exact added_measured hlength ih
              | string | list | dictionary =>
                  exact added_unmeasured hlength (fun _ _ h => Data.noConfusion h)
      | integer value p =>
          exact added_mistyped rfl (by rintro ⟨_, _, _, _, heq, -⟩; cases heq)
            (by rintro ⟨_, _, heq, -⟩; cases heq)
      | string value p =>
          exact added_mistyped rfl (by rintro ⟨_, _, _, _, heq, -⟩; cases heq)
            (by rintro ⟨_, _, heq, -⟩; cases heq)
      | list value p =>
          exact added_mistyped rfl (by rintro ⟨_, _, _, _, heq, -⟩; cases heq)
            (by rintro ⟨_, _, heq, -⟩; cases heq)

/-- The loop ends at an incomplete file exactly if one follows complete files, with no overflow before
it. -/
theorem addFiles_eq_none : addFiles files total = .ok none ↔
    CutShort files ∧ Accumulates total.toInt (lengthsAdded files) := by
  have hadded := addFiles_added files total
  generalize addFiles files total = result at hadded
  cases hadded with
  | all hfiles hsums hsize => simp [not_cutShort_of_complete hfiles]
  | cutShort hcut hsums => simp [hcut, hsums]
  | overflow hsums => simp [hsums]
  | mistyped hfiles hcut hsums => simp [hcut]

theorem addFiles_eq_some : addFiles files total = .ok (some size) ↔
    (∀ file ∈ files, Complete file) ∧ Accumulates total.toInt (lengthsAdded files) ∧
      size.toInt = total.toInt + ((lengthsAdded files).map Int64.toInt).sum := by
  have hadded := addFiles_added files total
  generalize addFiles files total = result at hadded
  cases hadded with
  | @all size' hfiles hsums hsize =>
      rw [← hsize]
      simp only [Except.ok.injEq, Option.some.injEq, hsums, true_and]
      refine ⟨?_, fun h => Int64.toInt_inj.mp h.2.symm⟩
      rintro rfl
      exact ⟨hfiles, rfl⟩
  | cutShort hcut hsums =>
      refine iff_of_false nofun fun h => not_cutShort_of_complete h.1 hcut
  | overflow hsums => exact iff_of_false nofun fun h => hsums h.2.1
  | mistyped hfiles hcut hsums => exact iff_of_false nofun fun h => hfiles h.1

theorem addFiles_eq_undefined : addFiles files total = .error .undefined ↔
    ¬ Accumulates total.toInt (lengthsAdded files) := by
  have hadded := addFiles_added files total
  generalize addFiles files total = result at hadded
  cases hadded with
  | all hfiles hsums hsize => simp [hsums]
  | cutShort hcut hsums => simp [hsums]
  | overflow hsums => simp [hsums]
  | mistyped hfiles hcut hsums => simp [hsums]

end Files

/-! ### The checks on the sizes -/

/-- The sizes are refused: there are both a length and files or neither of them, or a file is
incomplete. -/
def SizesRefused (info : Dictionary) : Prop :=
  (contains "length" info = contains "files" info) ∨
    ∃ files p, find "length" info = none ∧ find "files" info = some (.list files p) ∧
      CutShort files ∧ Accumulates 0 (lengthsAdded files)

/-- The sizes are accepted, with this total. -/
def Sized (info : Dictionary) (total : Int64) : Prop :=
  (∃ p, find "length" info = some (.integer total p) ∧ find "files" info = none) ∨
    ∃ files p, find "length" info = none ∧ find "files" info = some (.list files p) ∧
      (∀ file ∈ files, Complete file) ∧ Accumulates 0 (lengthsAdded files) ∧
        total.toInt = ((lengthsAdded files).map Int64.toInt).sum

/-- How the loop over the files is left, at the place where a list of files is. -/
theorem parseLengths_files {torrent : TorrentFile} {info : Dictionary} {found : Data}
    (hlength : find "length" info = none) (hfiles : find "files" info = some found) :
    parseLengths torrent info = (do
      let files ← found.getAsList
      match ← addFiles files torrent.downloadSize with
      | none => pure none
      | some downloadSize =>
          pure (some { torrent with isFile := false, downloadSize, fileCount := files.length })) := by
  rw [parseLengths, hlength]
  dsimp only
  rw [hfiles]
  dsimp only
  rw [contains, hlength]
  rfl

theorem parseLengths_eq_none {torrent : TorrentFile} {info : Dictionary}
    (hzero : torrent.downloadSize = 0) :
    parseLengths torrent info = .ok none ↔ SizesRefused info := by
  rw [SizesRefused, contains, contains]
  cases hlength : find "length" info with
  | some found =>
      rw [parseLengths, hlength]
      dsimp only
      cases hfiles : find "files" info with
      | some files => simp [contains, hfiles, pure, Except.pure]
      | none =>
          simp only [contains, hfiles, Option.isSome_some, Option.isSome_none, Bool.false_eq_true,
            if_false, Bool.true_eq_false, false_or]
          refine iff_of_false ?_ ?_
          · cases found <;> simp [Data.getAsInteger, bind, Except.bind, pure, Except.pure]
          · rintro ⟨_, _, hnone, -⟩
            cases hnone
  | none =>
      cases hfiles : find "files" info with
      | none => simp [parseLengths, hlength, hfiles, pure, Except.pure]
      | some found =>
          rw [parseLengths_files hlength hfiles]
          simp only [Option.isSome_some, Option.isSome_none, Bool.false_eq_true, false_or, true_and]
          constructor
          · intro h
            obtain ⟨files, hlist, hrest⟩ := Except.bind_eq_ok.mp h
            obtain ⟨p, rfl⟩ := Data.getAsList_eq_ok.mp hlist
            obtain ⟨size, hadded, hdone⟩ := Except.bind_eq_ok.mp hrest
            cases size with
            | some size => cases hdone
            | none =>
                rw [addFiles_eq_none, hzero] at hadded
                exact ⟨files, p, rfl, hadded⟩
          · rintro ⟨files, p, heq, hadded⟩
            cases heq
            have hnone : addFiles files torrent.downloadSize = .ok none := by
              rw [addFiles_eq_none, hzero]
              exact hadded
            simp only [Data.getAsList, bind, Except.bind, hnone]
            rfl

theorem parseLengths_eq_some {torrent : TorrentFile} {info : Dictionary} {total : Int64}
    (hzero : torrent.downloadSize = 0) :
    (∃ measured, parseLengths torrent info = .ok (some measured) ∧ measured.downloadSize = total) ↔
      Sized info total := by
  constructor
  · rintro ⟨measured, h, rfl⟩
    cases parseLengths_measured h with
    | @single length p hlength =>
        refine Or.inl ⟨p, hlength, ?_⟩
        rw [parseLengths, hlength] at h
        dsimp only at h
        split at h
        · cases h
        · rename_i hfiles
          rw [contains, Bool.not_eq_true, Option.isSome_eq_false_iff, Option.isNone_iff_eq_none] at hfiles
          exact hfiles
    | @multiple files p size hlength hfiles hadded =>
        rw [hzero, addFiles_eq_some] at hadded
        obtain ⟨hcomplete, hsums, hsize⟩ := hadded
        exact Or.inr ⟨files, p, hlength, hfiles, hcomplete, hsums, hsize.trans (Int.zero_add _)⟩
  · rintro (⟨p, hlength, hfiles⟩ | ⟨files, p, hlength, hfiles, hcomplete, hsums, hsize⟩)
    · refine ⟨{ torrent with isFile := true, downloadSize := total, fileCount := 1 }, ?_, rfl⟩
      rw [parseLengths, hlength]
      dsimp only
      rw [contains, hfiles]
      rfl
    · have hadded : addFiles files torrent.downloadSize = .ok (some total) := by
        rw [hzero, addFiles_eq_some]
        exact ⟨hcomplete, hsums, hsize.trans (Int.zero_add _).symm⟩
      refine ⟨{ torrent with isFile := false, downloadSize := total, fileCount := files.length }, ?_, rfl⟩
      rw [parseLengths_files hlength hfiles]
      simp only [Data.getAsList, bind, Except.bind, hadded]
      rfl

/-! ### The checks on the pieces -/

/-- The pieces are refused: their hashes are cut short, or there are not as many as the sizes ask for. -/
def PiecesRefused (info : Dictionary) (total : Int64) : Prop :=
  ∃ hashes p, find "pieces" info = some (.string hashes p) ∧
    (hashes.size % 20 ≠ 0 ∨
      ∃ pieceLength q count, find "piece length" info = some (.integer pieceLength q) ∧
        ceilDiv (SizeT.ofInt total.toInt) (SizeT.ofInt pieceLength.toInt) = .ok count ∧
          count ≠ hashes.size / 20)

/-- The pieces are accepted, as many as the sizes ask for. -/
def PiecesAccepted (info : Dictionary) (total : Int64) (count : Nat) : Prop :=
  ∃ hashes p pieceLength q, find "pieces" info = some (.string hashes p) ∧ hashes.size % 20 = 0 ∧
    find "piece length" info = some (.integer pieceLength q) ∧
      ceilDiv (SizeT.ofInt total.toInt) (SizeT.ofInt pieceLength.toInt) = .ok count ∧
        count = hashes.size / 20

section Pieces

variable {torrent : TorrentFile} {info : Dictionary}

theorem pieces_eq_ok (hinfo : torrent.infoMap = .ok info) {hashes : ByteString} :
    torrent.pieces = .ok hashes ↔ ∃ p, find "pieces" info = some (.string hashes p) := by
  rw [pieces, hinfo]
  simp only [Except.bind_eq_ok, Except.ok.injEq, exists_eq_left', dereference_eq_ok,
    Data.getAsString_eq_ok]
  exact ⟨fun ⟨_, hfound, p, heq⟩ => ⟨p, heq ▸ hfound⟩, fun ⟨p, hfound⟩ => ⟨_, hfound, p, rfl⟩⟩

theorem getPieceLength_eq_ok (hinfo : torrent.infoMap = .ok info) {pieceLength : Int64} :
    torrent.getPieceLength = .ok pieceLength ↔
      ∃ p, find "piece length" info = some (.integer pieceLength p) := by
  rw [getPieceLength, hinfo]
  simp only [Except.bind_eq_ok, Except.ok.injEq, exists_eq_left', dereference_eq_ok,
    Data.getAsInteger_eq_ok]
  exact ⟨fun ⟨_, hfound, p, heq⟩ => ⟨p, heq ▸ hfound⟩, fun ⟨p, hfound⟩ => ⟨_, hfound, p, rfl⟩⟩

theorem parsePieces_eq_none (hinfo : torrent.infoMap = .ok info) :
    parsePieces torrent = .ok none ↔ PiecesRefused info torrent.downloadSize := by
  constructor
  · intro h
    obtain ⟨hashes, hpieces, h⟩ := Except.bind_eq_ok.mp h
    obtain ⟨p, hfound⟩ := (pieces_eq_ok hinfo).mp hpieces
    refine ⟨hashes, p, hfound, ?_⟩
    split at h
    · rename_i hcut
      exact Or.inl hcut
    · obtain ⟨pieceLength, hlength, h⟩ := Except.bind_eq_ok.mp h
      obtain ⟨q, hfound'⟩ := (getPieceLength_eq_ok hinfo).mp hlength
      obtain ⟨count, hcount, h⟩ := Except.bind_eq_ok.mp h
      refine Or.inr ⟨pieceLength, q, count, hfound', hcount, fun heq => ?_⟩
      rw [if_neg (not_not.mpr heq)] at h
      cases h
  · rintro ⟨hashes, p, hfound, hrefused⟩
    rw [parsePieces, (pieces_eq_ok hinfo).mpr ⟨p, hfound⟩]
    simp only [bind, Except.bind]
    split
    · rfl
    · rename_i hfull
      rcases hrefused with hcut | ⟨pieceLength, q, count, hfound', hcount, hne⟩
      · exact absurd hcut hfull
      · rw [(getPieceLength_eq_ok hinfo).mpr ⟨q, hfound'⟩]
        dsimp only
        rw [hcount]
        dsimp only
        rw [if_pos hne]
        rfl

theorem parsePieces_eq_some (hinfo : torrent.infoMap = .ok info) {parsed : TorrentFile} :
    parsePieces torrent = .ok (some parsed) ↔
      PiecesAccepted info torrent.downloadSize parsed.pieceCount ∧
        parsed = { torrent with pieceCount := parsed.pieceCount } := by
  constructor
  · intro h
    refine ⟨?_, (parsePieces_spec h).1⟩
    obtain ⟨hashes, hpieces, h⟩ := Except.bind_eq_ok.mp h
    obtain ⟨p, hfound⟩ := (pieces_eq_ok hinfo).mp hpieces
    split at h
    · cases h
    · rename_i hfull
      obtain ⟨pieceLength, hlength, h⟩ := Except.bind_eq_ok.mp h
      obtain ⟨q, hfound'⟩ := (getPieceLength_eq_ok hinfo).mp hlength
      obtain ⟨count, hcount, h⟩ := Except.bind_eq_ok.mp h
      split at h
      · cases h
      · rename_i heq
        cases h
        rw [not_not] at heq hfull
        rw [heq] at hcount
        exact ⟨hashes, p, pieceLength, q, hfound, hfull, hfound', hcount, rfl⟩
  · rintro ⟨⟨hashes, p, pieceLength, q, hfound, hfull, hfound', hcount, heq⟩, hparsed⟩
    rw [parsePieces, (pieces_eq_ok hinfo).mpr ⟨p, hfound⟩]
    simp only [bind, Except.bind]
    rw [if_neg (not_not.mpr hfull), (getPieceLength_eq_ok hinfo).mpr ⟨q, hfound'⟩]
    dsimp only
    rw [hcount]
    dsimp only
    rw [if_neg (not_not.mpr heq), ← heq, ← hparsed]
    rfl

end Pieces

/-! ### The outcome for an info dictionary -/

def HasAll (info : Dictionary) : Prop :=
  contains "name" info = true ∧ contains "pieces" info = true ∧ contains "piece length" info = true

def HasNone (info : Dictionary) : Prop :=
  contains "name" info = false ∧ contains "pieces" info = false ∧ contains "piece length" info = false

section Info

variable {transcibe info : Dictionary} {p : SourceStats} {hash : Digest}

theorem infoMap_unparsed (hinfo : find "info" transcibe = some (.dictionary info p)) :
    (unparsed transcibe hash).infoMap = .ok info := by
  rw [infoMap, unparsed]
  exact Except.bind_eq_ok.mpr ⟨_, dereference_eq_ok.mpr hinfo, rfl⟩

/-- Measuring the sizes leaves the dictionary. -/
theorem infoMap_measured {torrent measured : TorrentFile} (h : Measured torrent info measured) :
    measured.infoMap = torrent.infoMap := by
  cases h <;> rfl

theorem parseTranscription_some_keys {torrent : TorrentFile} (hinfo : torrent.infoMap = .ok info)
    (hkeys : ¬ HasNone info) :
    parseTranscription torrent = (do
      match ← parseLengths torrent info with
      | none => pure none
      | some torrent => parsePieces torrent) := by
  have hpresent : (!contains "name" info && !contains "pieces" info && !contains "piece length" info) =
      false := by
    rw [HasNone] at hkeys
    by_contra hnot
    simp only [Bool.not_eq_false, Bool.and_eq_true, Bool.not_eq_true'] at hnot
    exact hkeys ⟨hnot.1.1, hnot.1.2, hnot.2⟩
  rw [parseTranscription, hinfo]
  show (if (!contains "name" info && !contains "pieces" info && !contains "piece length" info) = true
    then _ else _) = _
  rw [hpresent]
  rfl

theorem parseTranscription_no_keys {torrent : TorrentFile} (hinfo : torrent.infoMap = .ok info)
    (hkeys : HasNone info) : parseTranscription torrent = .ok none := by
  obtain ⟨hname, hpieces, hlength⟩ := hkeys
  rw [parseTranscription, hinfo]
  simp only [bind, Except.bind, hname, hpieces, hlength]
  rfl

/-- When `parse_transcription` returns false. -/
theorem parseTranscription_eq_none (hinfo : find "info" transcibe = some (.dictionary info p)) :
    parseTranscription (unparsed transcibe hash) = .ok none ↔
      HasNone info ∨ SizesRefused info ∨ ∃ total, Sized info total ∧ PiecesRefused info total := by
  have hmap := @infoMap_unparsed _ _ _ hash hinfo
  by_cases hkeys : HasNone info
  · exact iff_of_true (parseTranscription_no_keys hmap hkeys) (Or.inl hkeys)
  · rw [parseTranscription_some_keys hmap hkeys, or_iff_right hkeys, Except.bind_eq_ok]
    constructor
    · rintro ⟨measured, hlengths, hrest⟩
      cases measured with
      | none => exact Or.inl ((parseLengths_eq_none rfl).mp hlengths)
      | some measured =>
          refine Or.inr ⟨measured.downloadSize, (parseLengths_eq_some rfl).mp ⟨measured, hlengths, rfl⟩, ?_⟩
          exact (parsePieces_eq_none
            ((infoMap_measured (parseLengths_measured hlengths)).trans hmap)).mp hrest
    · rintro (hrefused | ⟨total, hsized, hrefused⟩)
      · exact ⟨none, (parseLengths_eq_none rfl).mpr hrefused, rfl⟩
      · obtain ⟨measured, hlengths, rfl⟩ := (@parseLengths_eq_some (unparsed transcibe hash) info _ rfl).mpr hsized
        exact ⟨some measured, hlengths, (parsePieces_eq_none
          ((infoMap_measured (parseLengths_measured hlengths)).trans hmap)).mpr hrefused⟩

/-- When `parse_transcription` returns true. -/
theorem parseTranscription_accepts {total : Int64} {count : Nat}
    (hinfo : find "info" transcibe = some (.dictionary info p)) :
    (∃ parsed, parseTranscription (unparsed transcibe hash) = .ok (some parsed) ∧
        parsed.downloadSize = total ∧ parsed.pieceCount = count) ↔
      ¬ HasNone info ∧ Sized info total ∧ PiecesAccepted info total count := by
  have hmap := @infoMap_unparsed _ _ _ hash hinfo
  by_cases hkeys : HasNone info
  · rw [parseTranscription_no_keys hmap hkeys]
    exact iff_of_false nofun fun h => h.1 hkeys
  · rw [parseTranscription_some_keys hmap hkeys, and_iff_right hkeys]
    constructor
    · rintro ⟨parsed, h, rfl, rfl⟩
      obtain ⟨measured, hlengths, hrest⟩ := Except.bind_eq_ok.mp h
      cases measured with
      | none => cases hrest
      | some measured =>
          obtain ⟨haccepted, hparsed⟩ := (parsePieces_eq_some
            ((infoMap_measured (parseLengths_measured hlengths)).trans hmap)).mp hrest
          have hsize : parsed.downloadSize = measured.downloadSize := by rw [hparsed]
          rw [hsize]
          exact ⟨(parseLengths_eq_some rfl).mp ⟨measured, hlengths, rfl⟩, haccepted⟩
    · rintro ⟨hsized, haccepted⟩
      obtain ⟨measured, hlengths, rfl⟩ := (@parseLengths_eq_some (unparsed transcibe hash) info _ rfl).mpr hsized
      refine ⟨{ measured with pieceCount := count }, ?_, rfl, rfl⟩
      rw [hlengths]
      exact (parsePieces_eq_some
        ((infoMap_measured (parseLengths_measured hlengths)).trans hmap)).mpr ⟨haccepted, rfl⟩

/-! ### Presence of the keys -/

/-- Acceptance means that the three keys are there and the accessors find them, and a dictionary that
lacks one of them is refused. -/
def KeysChecked (transcibe info : Dictionary) (hash : Digest) : Prop :=
  (∀ parsed, parseTranscription (unparsed transcibe hash) = .ok (some parsed) →
    HasAll info ∧ parsed.pieces ≠ .error .undefined ∧ parsed.getPieceLength ≠ .error .undefined ∧
      parsed.getTorrentName ≠ .error .undefined) ∧
  (¬ HasAll info → parseTranscription (unparsed transcibe hash) = .ok none)

/-- An accessor of a key that is there. -/
theorem access_ne_undefined {α : Type} {torrent : TorrentFile} {key : String}
    {getAs : Data → Except Fault α} (hinfo : torrent.infoMap = .ok info)
    (hkey : contains key info = true)
    (hgetAs : ∀ d fault, getAs d = .error fault → fault = .badVariantAccess) :
    (do getAs (← dereference key (← torrent.infoMap))) ≠ .error .undefined := by
  intro h
  rw [hinfo] at h
  rcases Except.bind_eq_error.mp h with hmap | ⟨map, hmap, h⟩
  · cases hmap
  · cases hmap
    rcases Except.bind_eq_error.mp h with hmissing | ⟨d, -, hread⟩
    · rw [dereference_eq_error, hkey] at hmissing
      cases hmissing.1
    · cases hgetAs d _ hread

theorem accessors_of_hasAll {torrent : TorrentFile} (hinfo : torrent.infoMap = .ok info)
    (hkeys : HasAll info) :
    torrent.pieces ≠ .error .undefined ∧ torrent.getPieceLength ≠ .error .undefined ∧
      torrent.getTorrentName ≠ .error .undefined :=
  ⟨access_ne_undefined hinfo hkeys.2.1 fun _ _ => Data.getAsString_eq_error,
    access_ne_undefined hinfo hkeys.2.2 fun _ _ => Data.getAsInteger_eq_error,
    access_ne_undefined hinfo hkeys.1 fun _ _ => Data.getAsString_eq_error⟩

theorem infoMap_parsed (hinfo : find "info" transcibe = some (.dictionary info p))
    {parsed : TorrentFile} (h : parseTranscription (unparsed transcibe hash) = .ok (some parsed)) :
    parsed.infoMap = .ok info := by
  rw [infoMap, (parseTranscription_frame h).1]
  exact @infoMap_unparsed _ _ _ hash hinfo

/-- The presence test refuses only a dictionary that lacks all three keys; one that lacks some of them
is refused exactly if another check refuses it before a missing key is looked up. -/
theorem keysChecked_iff (hinfo : find "info" transcibe = some (.dictionary info p)) :
    KeysChecked transcibe info hash ↔
      HasAll info ∨ HasNone info ∨ SizesRefused info ∨
        ∃ total, Sized info total ∧ PiecesRefused info total := by
  rw [← @parseTranscription_eq_none _ _ _ hash hinfo]
  constructor
  · intro h
    by_cases hkeys : HasAll info
    · exact Or.inl hkeys
    · exact Or.inr (h.2 hkeys)
  · rintro (hkeys | hrefused)
    · refine ⟨fun parsed hparsed => ⟨hkeys, ?_⟩, fun hnot => absurd hkeys hnot⟩
      exact accessors_of_hasAll (infoMap_parsed hinfo hparsed) hkeys
    · refine ⟨fun parsed hparsed => ?_, fun _ => hrefused⟩
      rw [hrefused] at hparsed
      cases hparsed

/-! An `info` with a length, a piece length and one piece, and no name. -/

def namelessSource : List Byte :=
  "d4:infod6:lengthi1e12:piece lengthi1e6:pieces20:aaaaaaaaaaaaaaaaaaaaee".toList.map ascii

def oneHash : ByteString := .ofString "aaaaaaaaaaaaaaaaaaaa"

def namelessInfo : Dictionary :=
  [(.ofString "length", .integer 1 ⟨16, 3⟩), (.ofString "piece length", .integer 1 ⟨34, 3⟩),
    (.ofString "pieces", .string oneHash ⟨45, 23⟩)]

def namelessTranscibe : Dictionary := [(.ofString "info", .dictionary namelessInfo ⟨7, 62⟩)]

theorem keysChecked_iff_nameless : KeysChecked namelessTranscibe namelessInfo (.replicate 20 0) ↔
    HasAll namelessInfo ∨ HasNone namelessInfo ∨ SizesRefused namelessInfo ∨
      ∃ total, Sized namelessInfo total ∧ PiecesRefused namelessInfo total :=
  @keysChecked_iff namelessTranscibe namelessInfo ⟨7, 62⟩ _ rfl

theorem nameless_accepted :
    Decode.input namelessSource = some (.dictionary namelessTranscibe ⟨0, 70⟩) ∧
      find "info" namelessTranscibe = some (.dictionary namelessInfo ⟨7, 62⟩) ∧
        ¬ KeysChecked namelessTranscibe namelessInfo (.replicate 20 0) := by
  refine ⟨rfl, rfl, fun h => ?_⟩
  have hparsed : parseTranscription (unparsed namelessTranscibe (.replicate 20 0)) =
      .ok (some ⟨namelessTranscibe, .replicate 20 0, true, 1, 1, 1⟩) := rfl
  have hname : contains "name" namelessInfo = false := rfl
  rw [(h.1 _ hparsed).1.1] at hname
  cases hname

/-! ### The geometry -/

/-- A file entry whose length, if there is one, is an integer. -/
def TypedFile (file : Data) : Prop :=
  ∃ fileMap p, file = .dictionary fileMap p ∧
    ∀ d, find "length" fileMap = some d → ∃ length q, d = .integer length q

/-- The keys that `parse_transcription` looks up have the types it expects. -/
structure TypedInfo (info : Dictionary) (hashes : ByteString) (pieceLength : Int64) : Prop where
  name : ∃ name p, find "name" info = some (.string name p)
  pieces : ∃ p, find "pieces" info = some (.string hashes p)
  pieceLength : ∃ p, find "piece length" info = some (.integer pieceLength p)
  length : ∀ d, find "length" info = some d → ∃ length p, d = .integer length p
  files : ∀ d, find "files" info = some d →
    ∃ files p, d = .list files p ∧ ∀ file ∈ files, TypedFile file

/-- Nothing overflows and nothing is divided by zero; and an accepted torrent has a positive piece
length, no negative file length, the sum of the lengths as its size, and the least number of pieces that
holds this size. -/
def GeometryChecked (transcibe info : Dictionary) (hash : Digest) : Prop :=
  parseTranscription (unparsed transcibe hash) ≠ .error .undefined ∧
    ∀ parsed, parseTranscription (unparsed transcibe hash) = .ok (some parsed) →
      ∃ pieceLength, parsed.getPieceLength = .ok pieceLength ∧ 0 < pieceLength.toInt ∧
        (∀ length ∈ infoLengths info, 0 ≤ length) ∧
          parsed.downloadSize.toInt = (infoLengths info).sum ∧
            IsLeast { k : Nat | parsed.downloadSize.toInt ≤ k * pieceLength.toInt } parsed.pieceCount

/-- The sizes can be added up. -/
def Summable (info : Dictionary) : Prop :=
  ∀ files p, find "length" info = none → find "files" info = some (.list files p) →
    Accumulates 0 (lengthsAdded files)

theorem complete_or_cutShort {files : List Data} (h : ∀ file ∈ files, TypedFile file) :
    (∀ file ∈ files, Complete file) ∨ CutShort files := by
  induction files with
  | nil => exact Or.inl nofun
  | cons file files ih =>
      obtain ⟨⟨fileMap, p, rfl, hinteger⟩, hfiles⟩ := List.forall_mem_cons.mp h
      cases hlength : find "length" fileMap with
      | none => exact Or.inr (cutShort_cons_incomplete ⟨fileMap, p, rfl, Or.inl hlength⟩)
      | some found =>
          obtain ⟨length, q, rfl⟩ := hinteger _ hlength
          cases hpath : contains "path" fileMap with
          | false =>
              exact Or.inr (cutShort_cons_incomplete
                ⟨fileMap, p, rfl, Or.inr ⟨length, q, hlength, hpath⟩⟩)
          | true =>
              have hcomplete : Complete (.dictionary fileMap p) :=
                ⟨fileMap, p, length, q, rfl, hlength, hpath⟩
              rw [cutShort_cons_complete hcomplete, List.forall_mem_cons]
              exact (ih hfiles).imp_left fun hall => ⟨hcomplete, hall⟩

variable {hashes : ByteString} {pieceLength : Int64}

namespace TypedInfo

theorem not_hasNone (h : TypedInfo info hashes pieceLength) : ¬ HasNone info := by
  rintro ⟨hname, -, -⟩
  obtain ⟨name, p, hfound⟩ := h.name
  rw [contains, hfound] at hname
  cases hname

theorem sizes (h : TypedInfo info hashes pieceLength) (hsums : Summable info) :
    SizesRefused info ∨ ∃ total, Sized info total := by
  cases hlength : find "length" info with
  | some found =>
      obtain ⟨length, p, rfl⟩ := h.length _ hlength
      cases hfiles : find "files" info with
      | some files =>
          refine Or.inl (Or.inl ?_)
          rw [contains, contains, hlength, hfiles]
          rfl
      | none => exact Or.inr ⟨length, Or.inl ⟨p, hlength, hfiles⟩⟩
  | none =>
      cases hfiles : find "files" info with
      | none =>
          refine Or.inl (Or.inl ?_)
          rw [contains, contains, hlength, hfiles]
      | some found =>
          obtain ⟨files, p, rfl, htyped⟩ := h.files _ hfiles
          have haccumulates := hsums files p hlength hfiles
          rcases complete_or_cutShort htyped with hcomplete | hcut
          · have hadded := addFiles_added files 0
            cases hresult : addFiles files 0 with
            | error fault =>
                rw [hresult] at hadded
                cases hadded with
                | overflow hover => exact absurd haccumulates hover
                | mistyped hnot _ _ => exact absurd hcomplete hnot
            | ok size =>
                cases size with
                | none =>
                    exact absurd (addFiles_eq_none.mp hresult).1 (not_cutShort_of_complete hcomplete)
                | some total =>
                    obtain ⟨-, -, htotal⟩ := addFiles_eq_some.mp hresult
                    exact Or.inr ⟨total, Or.inr ⟨files, p, hlength, hfiles, hcomplete, haccumulates,
                      htotal.trans (Int.zero_add _)⟩⟩
          · exact Or.inl (Or.inr ⟨files, p, hlength, hfiles, hcut, haccumulates⟩)

end TypedInfo

theorem not_sized_of_refused (hrefused : SizesRefused info) {total : Int64} : ¬ Sized info total := by
  intro hsized
  obtain ⟨measured, hlengths, -⟩ := (@parseLengths_eq_some (unparsed [] (.replicate 20 0)) info total rfl).mpr hsized
  rw [(@parseLengths_eq_none (unparsed [] (.replicate 20 0)) info rfl).mpr hrefused] at hlengths
  cases hlengths

theorem sized_unique {total total' : Int64} (h : Sized info total) (h' : Sized info total') :
    total = total' := by
  obtain ⟨measured, hlengths, rfl⟩ := (@parseLengths_eq_some (unparsed [] (.replicate 20 0)) info total rfl).mpr h
  obtain ⟨measured', hlengths', rfl⟩ := (@parseLengths_eq_some (unparsed [] (.replicate 20 0)) info total' rfl).mpr h'
  rw [hlengths] at hlengths'
  cases hlengths'
  rfl

/-- Lengths that cannot be added up overflow. -/
theorem parseTranscription_overflow (hinfo : find "info" transcibe = some (.dictionary info p))
    (hkeys : ¬ HasNone info) (hsums : ¬ Summable info) :
    parseTranscription (unparsed transcibe hash) = .error .undefined := by
  rw [Summable] at hsums
  push Not at hsums
  obtain ⟨files, q, hlength, hfiles, hover⟩ := hsums
  have hadd : addFiles files (unparsed transcibe hash).downloadSize = .error .undefined :=
    addFiles_eq_undefined.mpr hover
  rw [parseTranscription_some_keys (@infoMap_unparsed _ _ _ hash hinfo) hkeys,
    parseLengths_files hlength hfiles]
  simp only [Data.getAsList, bind, Except.bind, hadd]

/-- A zero piece length that gets as far as the division. -/
theorem parseTranscription_zero (hinfo : find "info" transcibe = some (.dictionary info p))
    (htyped : TypedInfo info hashes 0) {total : Int64} (hsized : Sized info total)
    (hfull : hashes.size % 20 = 0) :
    parseTranscription (unparsed transcibe hash) = .error .undefined := by
  have hmap := @infoMap_unparsed _ _ _ hash hinfo
  obtain ⟨measured, hlengths, -⟩ :=
    (@parseLengths_eq_some (unparsed transcibe hash) info total rfl).mpr hsized
  have hmeasured := (infoMap_measured (parseLengths_measured hlengths)).trans hmap
  rw [parseTranscription_some_keys hmap htyped.not_hasNone, hlengths]
  simp only [bind, Except.bind]
  rw [parsePieces, (pieces_eq_ok hmeasured).mpr htyped.pieces]
  simp only [bind, Except.bind]
  rw [if_neg (not_not.mpr hfull), (getPieceLength_eq_ok hmeasured).mpr htyped.pieceLength]
  rfl

theorem ceilDiv_of_ne_zero (total : Int64) (hne : pieceLength ≠ 0) :
    ∃ count, ceilDiv (SizeT.ofInt total.toInt) (SizeT.ofInt pieceLength.toInt) = .ok count := by
  have hpos : SizeT.ofInt pieceLength.toInt ≠ 0 := by
    have hlo := pieceLength.le_toInt
    have hhi := pieceLength.toInt_lt
    have hint : pieceLength.toInt ≠ 0 := fun h => hne (Int64.toInt_inj.mp h)
    rw [SizeT.ofInt]
    omega
  exact ⟨_, if_neg hpos⟩

/-- The piece count is the least that holds the size, when both numbers survive the conversion. -/
theorem ceilDiv_isLeast {total : Int64} {count : Nat} (hpos : 0 < pieceLength.toInt)
    (hnonneg : 0 ≤ total.toInt)
    (hcount : ceilDiv (SizeT.ofInt total.toInt) (SizeT.ofInt pieceLength.toInt) = .ok count) :
    IsLeast { k : Nat | total.toInt ≤ k * pieceLength.toInt } count := by
  have htotal := total.toInt_lt
  have hlength := pieceLength.toInt_lt
  rw [SizeT.ofInt_of_nonneg hnonneg (by omega), SizeT.ofInt_of_nonneg hpos.le (by omega)] at hcount
  obtain ⟨n, hn⟩ := Int.eq_ofNat_of_zero_le hnonneg
  obtain ⟨m, hm⟩ := Int.eq_ofNat_of_zero_le hpos.le
  rw [hn, hm] at hcount ⊢
  obtain ⟨hholds, hless⟩ := ceilDiv_spec hcount
  rw [Int.toNat_natCast, Int.toNat_natCast] at hholds hless
  refine ⟨by exact_mod_cast hholds, fun k hk => ?_⟩
  have hk' : n ≤ k * m := by exact_mod_cast hk
  by_contra hlt
  have htoo : n < n :=
    calc n ≤ k * m := hk'
      _ ≤ (count - 1) * m := Nat.mul_le_mul_right m (by omega)
      _ < n := hless (by omega)
  exact lt_irrefl n htoo

/-- The condition on the accepted sizes and pieces: too few hash bytes to divide, or a piece length that
is not zero and either the wrong number of pieces or a positive piece length and no negative length. -/
def Divides (info : Dictionary) (hashes : ByteString) (pieceLength total : Int64) : Prop :=
  hashes.size % 20 ≠ 0 ∨
    pieceLength ≠ 0 ∧
      (ceilDiv (SizeT.ofInt total.toInt) (SizeT.ofInt pieceLength.toInt) ≠ .ok (hashes.size / 20) ∨
        0 < pieceLength.toInt ∧ ∀ length ∈ infoLengths info, 0 ≤ length)

theorem geometry_of_accepted (hinfo : find "info" transcibe = some (.dictionary info p))
    {parsed : TorrentFile} (h : parseTranscription (unparsed transcibe hash) = .ok (some parsed))
    (hlength : parsed.getPieceLength = .ok pieceLength) (hpos : 0 < pieceLength.toInt)
    (hnonneg : ∀ length ∈ infoLengths info, 0 ≤ length) :
    parsed.downloadSize.toInt = (infoLengths info).sum ∧
      IsLeast { k : Nat | parsed.downloadSize.toInt ≤ k * pieceLength.toInt } parsed.pieceCount := by
  have hsum := (parseTranscription_sizes h).1
  have hlengths : parsed.declaredLengths = infoLengths info := by
    rw [declaredLengths, infoMap_parsed hinfo h]
  rw [hlengths] at hsum
  refine ⟨hsum, ceilDiv_isLeast hpos ?_ (parseTranscription_count h hlength)⟩
  rw [hsum]
  exact List.sum_nonneg hnonneg

theorem geometry_sized (hinfo : find "info" transcibe = some (.dictionary info p))
    (htyped : TypedInfo info hashes pieceLength) {total : Int64} (hsized : Sized info total) :
    GeometryChecked transcibe info hash ↔ Divides info hashes pieceLength total := by
  obtain ⟨q, hpieces⟩ := htyped.pieces
  obtain ⟨q', hlength⟩ := htyped.pieceLength
  have hrefused : PiecesRefused info total → GeometryChecked transcibe info hash := by
    intro hrefused
    have hnone := (@parseTranscription_eq_none _ _ _ hash hinfo).mpr
      (Or.inr (Or.inr ⟨total, hsized, hrefused⟩))
    rw [GeometryChecked, hnone]
    exact ⟨nofun, nofun⟩
  by_cases hfull : hashes.size % 20 = 0
  · by_cases hzero : pieceLength = 0
    · subst hzero
      refine iff_of_false (fun h => h.1 (parseTranscription_zero hinfo htyped hsized hfull)) ?_
      rintro (hcut | ⟨hne, -⟩)
      · exact hcut hfull
      · exact hne rfl
    · obtain ⟨count, hcount⟩ := ceilDiv_of_ne_zero total hzero
      by_cases heq : count = hashes.size / 20
      · obtain ⟨parsed, hparsed, rfl, rfl⟩ := (@parseTranscription_accepts _ _ _ hash _ _ hinfo).mpr
          ⟨htyped.not_hasNone, hsized,
            hashes, q, pieceLength, q', hpieces, hfull, hlength, hcount, heq⟩
        have hread : parsed.getPieceLength = .ok pieceLength :=
          (getPieceLength_eq_ok (infoMap_parsed hinfo hparsed)).mpr ⟨q', hlength⟩
        constructor
        · rintro ⟨-, h⟩
          obtain ⟨read, hread', hpos, hnonneg, -⟩ := h parsed hparsed
          rw [hread] at hread'
          cases hread'
          exact Or.inr ⟨hzero, Or.inr ⟨hpos, hnonneg⟩⟩
        · rintro (hcut | ⟨-, hne | ⟨hpos, hnonneg⟩⟩)
          · exact absurd hfull hcut
          · rw [hcount, heq] at hne
            exact absurd rfl hne
          · rw [GeometryChecked, hparsed]
            refine ⟨nofun, fun parsed' heq' => ?_⟩
            cases heq'
            exact ⟨pieceLength, hread, hpos, hnonneg,
              geometry_of_accepted hinfo hparsed hread hpos hnonneg⟩
      · refine iff_of_true (hrefused ⟨hashes, q, hpieces, Or.inr ⟨pieceLength, q', count, hlength,
          hcount, heq⟩⟩) (Or.inr ⟨hzero, Or.inl ?_⟩)
        rw [hcount]
        exact fun h => heq (Except.ok.inj h)
  · exact iff_of_true (hrefused ⟨hashes, q, hpieces, Or.inl hfull⟩) (Or.inl hfull)

/-- For a well typed dictionary the geometry is checked exactly if the lengths can be added up and the
sizes and pieces divide as they should. -/
theorem geometryChecked_iff (hinfo : find "info" transcibe = some (.dictionary info p))
    (htyped : TypedInfo info hashes pieceLength) :
    GeometryChecked transcibe info hash ↔
      Summable info ∧ ∀ total, Sized info total → Divides info hashes pieceLength total := by
  by_cases hsums : Summable info
  · rw [and_iff_right hsums]
    rcases htyped.sizes hsums with hrefused | ⟨total, hsized⟩
    · refine iff_of_true ?_ fun total hsized => absurd hsized (not_sized_of_refused hrefused)
      rw [GeometryChecked, (@parseTranscription_eq_none _ _ _ hash hinfo).mpr (Or.inr (Or.inl hrefused))]
      exact ⟨nofun, nofun⟩
    · rw [geometry_sized hinfo htyped hsized]
      refine ⟨fun h total' hsized' => ?_, fun h => h total hsized⟩
      rwa [← sized_unique hsized hsized']
  · refine iff_of_false (fun h => h.1 ?_) fun h => hsums h.1
    exact parseTranscription_overflow hinfo htyped.not_hasNone hsums

/-! The source `d4:infod6:lengthi1e4:name1:n12:piece lengthi0e6:pieces0:ee`: one file of one byte in pieces
of no bytes, without a hash. -/

def zeroInfo : Dictionary :=
  [(.ofString "length", .integer 1 ⟨16, 3⟩), (.ofString "name", .string (.ofString "n") ⟨25, 3⟩),
    (.ofString "piece length", .integer 0 ⟨43, 3⟩), (.ofString "pieces", .string .empty ⟨54, 2⟩)]

def zeroTranscibe : Dictionary := [(.ofString "info", .dictionary zeroInfo ⟨7, 50⟩)]

theorem zeroInfo_typed : TypedInfo zeroInfo .empty 0 where
  name := ⟨_, _, rfl⟩
  pieces := ⟨_, rfl⟩
  pieceLength := ⟨_, rfl⟩
  length d h := ⟨1, _, (Option.some.inj h).symm⟩
  files d h := by cases h

theorem geometryChecked_iff_zero :
    GeometryChecked zeroTranscibe zeroInfo (.replicate 20 0) ↔
      Summable zeroInfo ∧ ∀ total, Sized zeroInfo total → Divides zeroInfo .empty 0 total :=
  @geometryChecked_iff zeroTranscibe _ ⟨7, 50⟩ _ _ _ rfl zeroInfo_typed

/-- A piece length of zero is divided by. -/
theorem zero_divides :
    find "info" zeroTranscibe = some (.dictionary zeroInfo ⟨7, 50⟩) ∧ TypedInfo zeroInfo .empty 0 ∧
      ¬ GeometryChecked zeroTranscibe zeroInfo (.replicate 20 0) := by
  refine ⟨rfl, zeroInfo_typed, fun h => h.1 ?_⟩
  have hsized : Sized zeroInfo 1 := Or.inl ⟨_, rfl, rfl⟩
  exact @parseTranscription_zero _ _ ⟨7, 50⟩ _ _ rfl zeroInfo_typed 1 hsized rfl

end Info

/-! ### The errors reported -/

/-- A result that is a value or the documented error. -/
def Reports {α : Type} (result : Except Fault α) : Prop :=
  ∀ fault, result = .error fault → fault = .invalidTorrentFile

/-- A result that is not the documented error. -/
def Unreported {α : Type} (result : Except Fault α) : Prop := result ≠ .error .invalidTorrentFile

theorem unreported_ok {α : Type} (a : α) : Unreported (.ok a) := fun h => by cases h

theorem unreported_undefined {α : Type} : Unreported (.error .undefined : Except Fault α) :=
  fun h => by cases h

theorem Unreported.bind {α β : Type} {x : Except Fault α} {f : α → Except Fault β}
    (hx : Unreported x) (hf : ∀ a, Unreported (f a)) : Unreported (x >>= f) := by
  intro h
  rcases Except.bind_eq_error.mp h with h | ⟨a, -, h⟩
  · exact hx h
  · exact hf a h

theorem dereference_unreported (key : String) (map : Dictionary) : Unreported (dereference key map) := by
  intro h
  cases (dereference_eq_error.mp h).2

theorem getAsInteger_unreported (d : Data) : Unreported d.getAsInteger :=
  fun h => by cases Data.getAsInteger_eq_error h

theorem getAsString_unreported (d : Data) : Unreported d.getAsString :=
  fun h => by cases Data.getAsString_eq_error h

theorem getAsList_unreported (d : Data) : Unreported d.getAsList :=
  fun h => by cases Data.getAsList_eq_error h

theorem getAsDictionary_unreported (d : Data) : Unreported d.getAsDictionary :=
  fun h => by cases Data.getAsDictionary_eq_error h

theorem infoMap_unreported (torrent : TorrentFile) : Unreported torrent.infoMap :=
  (dereference_unreported _ _).bind getAsDictionary_unreported

theorem addFiles_unreported (files : List Data) (total : Int64) : Unreported (addFiles files total) := by
  intro h
  have hadded := addFiles_added files total
  rw [h] at hadded
  cases hadded

theorem parseLengths_unreported (torrent : TorrentFile) (info : Dictionary) :
    Unreported (parseLengths torrent info) := by
  rw [parseLengths]
  split
  · split
    · exact unreported_ok _
    · exact (getAsInteger_unreported _).bind fun _ => unreported_ok _
  · split
    · exact unreported_ok _
    · split
      · exact unreported_ok _
      · refine (getAsList_unreported _).bind fun files => (addFiles_unreported _ _).bind fun size => ?_
        cases size with
        | none => exact unreported_ok _
        | some size => exact unreported_ok _

theorem parsePieces_unreported (torrent : TorrentFile) : Unreported (parsePieces torrent) := by
  have hpieces : Unreported torrent.pieces := (infoMap_unreported torrent).bind fun _ =>
    (dereference_unreported _ _).bind getAsString_unreported
  have hlength : Unreported torrent.getPieceLength := (infoMap_unreported torrent).bind fun _ =>
    (dereference_unreported _ _).bind getAsInteger_unreported
  refine hpieces.bind fun hashes => ?_
  split
  · exact unreported_ok _
  · refine hlength.bind fun pieceLength => ?_
    have hdiv : Unreported
        (ceilDiv (SizeT.ofInt torrent.downloadSize.toInt) (SizeT.ofInt pieceLength.toInt)) := by
      rw [ceilDiv]
      split
      · exact unreported_undefined
      · exact unreported_ok _
    refine hdiv.bind fun count => ?_
    split
    · exact unreported_ok _
    · exact unreported_ok _

theorem parseTranscription_unreported (torrent : TorrentFile) :
    Unreported (parseTranscription torrent) := by
  refine (infoMap_unreported torrent).bind fun info => ?_
  split
  · exact unreported_ok _
  · refine (parseLengths_unreported torrent info).bind fun measured => ?_
    cases measured with
    | none => exact unreported_ok _
    | some measured => exact parsePieces_unreported measured

/-! ### The urls of the trackers -/

/-- The announce url is a string and the announce list is a list of lists of strings, where they are
present. -/
def UrlsTyped (transcibe : Dictionary) : Prop :=
  (∀ d, find "announce" transcibe = some d → ∃ url p, d = .string url p) ∧
    ∀ d, find "announce-list" transcibe = some d →
      ∃ urlPack p, d = .list urlPack p ∧ ∀ urlList ∈ urlPack,
        ∃ urls q, urlList = .list urls q ∧ ∀ url ∈ urls, ∃ s r, url = .string s r

theorem pushUrls_returns (urls : List Data) (trackers : List ByteString) :
    (∃ result, pushUrls urls trackers = .ok result) ↔ ∀ url ∈ urls, ∃ s r, url = .string s r := by
  induction urls generalizing trackers with
  | nil => exact iff_of_true ⟨_, rfl⟩ nofun
  | cons url urls ih =>
      rw [pushUrls, List.forall_mem_cons]
      simp only [Except.bind_eq_ok, Data.getAsString_eq_ok]
      constructor
      · rintro ⟨result, s, ⟨p, rfl⟩, h⟩
        exact ⟨⟨s, p, rfl⟩, (ih _).mp ⟨result, h⟩⟩
      · rintro ⟨⟨s, p, rfl⟩, hurls⟩
        obtain ⟨result, h⟩ := (ih (trackers ++ [s])).mpr hurls
        exact ⟨result, s, ⟨p, rfl⟩, h⟩

theorem pushUrlLists_returns (urlPack : List Data) (trackers : List ByteString) :
    (∃ result, pushUrlLists urlPack trackers = .ok result) ↔
      ∀ urlList ∈ urlPack, ∃ urls q, urlList = .list urls q ∧ ∀ url ∈ urls, ∃ s r, url = .string s r := by
  induction urlPack generalizing trackers with
  | nil => exact iff_of_true ⟨_, rfl⟩ nofun
  | cons urlList urlPack ih =>
      rw [pushUrlLists, List.forall_mem_cons]
      simp only [Except.bind_eq_ok, Data.getAsList_eq_ok]
      constructor
      · rintro ⟨result, urls, ⟨p, rfl⟩, pushed, hpush, h⟩
        exact ⟨⟨urls, p, rfl, (pushUrls_returns urls trackers).mp ⟨pushed, hpush⟩⟩,
          (ih _).mp ⟨result, h⟩⟩
      · rintro ⟨⟨urls, p, rfl, htyped⟩, hpack⟩
        obtain ⟨pushed, hpush⟩ := (pushUrls_returns urls trackers).mpr htyped
        obtain ⟨result, h⟩ := (ih pushed).mpr hpack
        exact ⟨result, urls, ⟨p, rfl⟩, pushed, hpush, h⟩

theorem getTrackerUrls_returns (torrent : TorrentFile) :
    (∃ urls, torrent.getTrackerUrls = .ok urls) ↔ UrlsTyped torrent.transcibe := by
  have hlists : ∀ trackers, (∃ urls, (match find "announce-list" torrent.transcibe with
      | none => pure trackers
      | some found => do
          let urlPack ← found.getAsList
          pushUrlLists urlPack trackers : Except Fault (List ByteString)) = .ok urls) ↔
      ∀ d, find "announce-list" torrent.transcibe = some d →
        ∃ urlPack p, d = .list urlPack p ∧ ∀ urlList ∈ urlPack,
          ∃ urls q, urlList = .list urls q ∧ ∀ url ∈ urls, ∃ s r, url = .string s r := by
    intro trackers
    cases find "announce-list" torrent.transcibe with
    | none => exact iff_of_true ⟨_, rfl⟩ nofun
    | some found =>
        simp only [Except.bind_eq_ok, Data.getAsList_eq_ok, Option.some.injEq, forall_eq']
        constructor
        · rintro ⟨urls, urlPack, ⟨p, rfl⟩, h⟩
          exact ⟨urlPack, p, rfl, (pushUrlLists_returns urlPack trackers).mp ⟨urls, h⟩⟩
        · rintro ⟨urlPack, p, rfl, htyped⟩
          obtain ⟨urls, h⟩ := (pushUrlLists_returns urlPack trackers).mpr htyped
          exact ⟨urls, urlPack, ⟨p, rfl⟩, h⟩
  rw [UrlsTyped, getTrackerUrls]
  cases find "announce" torrent.transcibe with
  | none =>
      rw [and_iff_right nofun]
      exact hlists []
  | some found =>
      simp only [Option.some.injEq, forall_eq']
      constructor
      · rintro ⟨urls, h⟩
        obtain ⟨url, hurl, h⟩ := Except.bind_eq_ok.mp h
        exact ⟨⟨url, Data.getAsString_eq_ok.mp hurl⟩, (hlists [url]).mp ⟨urls, h⟩⟩
      · rintro ⟨⟨url, p, rfl⟩, htyped⟩
        exact (hlists [url]).mpr htyped

theorem pushUrls_unreported (urls : List Data) (trackers : List ByteString) :
    Unreported (pushUrls urls trackers) := by
  induction urls generalizing trackers with
  | nil => exact nofun
  | cons url urls ih => exact (getAsString_unreported url).bind fun s => ih _

theorem pushUrlLists_unreported (urlPack : List Data) (trackers : List ByteString) :
    Unreported (pushUrlLists urlPack trackers) := by
  induction urlPack generalizing trackers with
  | nil => exact nofun
  | cons urlList urlPack ih =>
      exact (getAsList_unreported urlList).bind fun urls =>
        (pushUrls_unreported urls trackers).bind fun pushed => ih pushed

theorem getTrackerUrls_unreported (torrent : TorrentFile) : Unreported torrent.getTrackerUrls := by
  rw [getTrackerUrls]
  have hlists : ∀ trackers : List ByteString,
      Unreported (match find "announce-list" torrent.transcibe with
        | none => pure trackers
        | some found => do
            let urlPack ← found.getAsList
            pushUrlLists urlPack trackers) := by
    intro trackers
    split
    · exact nofun
    · exact (getAsList_unreported _).bind fun urlPack => pushUrlLists_unreported urlPack trackers
  split
  · exact hlists []
  · exact (getAsString_unreported _).bind fun url => hlists [url]

theorem getTrackerUrls_reports (torrent : TorrentFile) :
    Reports torrent.getTrackerUrls ↔ UrlsTyped torrent.transcibe := by
  rw [← getTrackerUrls_returns]
  cases h : torrent.getTrackerUrls with
  | ok urls => exact iff_of_true nofun ⟨urls, rfl⟩
  | error fault =>
      refine iff_of_false (fun hreports => ?_) nofun
      refine getTrackerUrls_unreported torrent ?_
      rw [h, hreports fault rfl]

/-- The root of a file whose errors are all reported: its `info` is a dictionary that is refused, by the
presence test or by a later check, or that is accepted along with urls of the right types. -/
def RootChecked (transcibe : Dictionary) : Prop :=
  ∀ infoValue, find "info" transcibe = some infoValue → ∃ info p, infoValue = .dictionary info p ∧
    (HasNone info ∨ SizesRefused info ∨ ∃ total, Sized info total ∧
      (PiecesRefused info total ∨ (∃ count, PiecesAccepted info total count) ∧ UrlsTyped transcibe))

theorem parseTranscription_reports {transcibe info : Dictionary} {p : SourceStats} {hash : Digest}
    (hinfo : find "info" transcibe = some (.dictionary info p)) :
    (parseTranscription (unparsed transcibe hash) = .ok none ∨
        ∃ parsed, parseTranscription (unparsed transcibe hash) = .ok (some parsed) ∧
          UrlsTyped transcibe) ↔
      (HasNone info ∨ SizesRefused info ∨ ∃ total, Sized info total ∧
        (PiecesRefused info total ∨ (∃ count, PiecesAccepted info total count) ∧ UrlsTyped transcibe)) := by
  rw [parseTranscription_eq_none hinfo]
  constructor
  · rintro ((hnone | hsizes | ⟨total, hsized, hpieces⟩) | ⟨parsed, hparsed, hurls⟩)
    · exact Or.inl hnone
    · exact Or.inr (Or.inl hsizes)
    · exact Or.inr (Or.inr ⟨total, hsized, Or.inl hpieces⟩)
    · obtain ⟨-, hsized, haccepted⟩ := (parseTranscription_accepts hinfo).mp ⟨parsed, hparsed, rfl, rfl⟩
      exact Or.inr (Or.inr ⟨_, hsized, Or.inr ⟨⟨_, haccepted⟩, hurls⟩⟩)
  · rintro (hnone | hsizes | ⟨total, hsized, hpieces | ⟨⟨count, haccepted⟩, hurls⟩⟩)
    · exact Or.inl (Or.inl hnone)
    · exact Or.inl (Or.inr (Or.inl hsizes))
    · exact Or.inl (Or.inr (Or.inr ⟨total, hsized, hpieces⟩))
    · by_cases hnone : HasNone info
      · exact Or.inl (Or.inl hnone)
      · obtain ⟨parsed, hparsed, -⟩ :=
          (@parseTranscription_accepts _ _ _ hash _ _ hinfo).mpr ⟨hnone, hsized, haccepted⟩
        exact Or.inr ⟨parsed, hparsed, hurls⟩

/-- What the constructor makes of the result of `parse_transcription`, and the call after it. -/
theorem parsed_reports (transcibe : Dictionary) (hash : Digest) :
    Reports ((do
        match ← parseTranscription (unparsed transcibe hash) with
        | none => .error .invalidTorrentFile
        | some torrent => pure torrent) >>= getTrackerUrls) ↔
      parseTranscription (unparsed transcibe hash) = .ok none ∨
        ∃ parsed, parseTranscription (unparsed transcibe hash) = .ok (some parsed) ∧
          UrlsTyped transcibe := by
  cases hresult : parseTranscription (unparsed transcibe hash) with
  | error fault =>
      refine iff_of_false (fun h => ?_) (by rintro (h | ⟨parsed, h, -⟩) <;> cases h)
      refine parseTranscription_unreported (unparsed transcibe hash) ?_
      rw [hresult, h fault rfl]
  | ok accepted =>
      cases accepted with
      | none =>
          refine iff_of_true (fun fault h => ?_) (Or.inl rfl)
          cases h
          rfl
      | some parsed =>
          have hurls := getTrackerUrls_reports parsed
          rw [(parseTranscription_frame hresult).1] at hurls
          exact hurls.trans ⟨fun h => Or.inr ⟨parsed, rfl, h⟩, by
            rintro (h | ⟨_, -, h⟩)
            · cases h
            · exact h⟩

/-- The construction and the call after it report every error exactly if the source does not decode to a
dictionary, or its root is one whose errors are reported. -/
theorem construct_reports_iff (getSha1 : List Byte → Digest) (sourceBuffer : List Byte) :
    Reports (construct getSha1 sourceBuffer >>= getTrackerUrls) ↔
      ∀ transcibe p, Decode.input sourceBuffer = some (.dictionary transcibe p) →
        RootChecked transcibe := by
  rw [construct]
  split
  · rename_i transcibe p hinput
    have hroot : (∀ transcibe' p', some (Data.dictionary transcibe p) = some (.dictionary transcibe' p') →
        RootChecked transcibe') ↔ RootChecked transcibe :=
      ⟨fun h => h _ _ rfl, fun h _ _ heq => by cases heq; exact h⟩
    rw [hinput, hroot, RootChecked]
    cases hinfo : find "info" transcibe with
    | none =>
        refine iff_of_true (fun fault h => ?_) fun _ h => by cases h
        cases h
        rfl
    | some infoValue =>
        simp only [Option.some.injEq, forall_eq']
        refine (parsed_reports transcibe _).trans ?_
        constructor
        · intro h
          by_cases hmap : ∃ info q, infoValue = .dictionary info q
          · obtain ⟨info, q, rfl⟩ := hmap
            exact ⟨info, q, rfl, (parseTranscription_reports hinfo).mp h⟩
          · refine absurd h ?_
            rw [parseTranscription, infoMap, unparsed, dereference, hinfo]
            cases infoValue with
            | dictionary info q => exact absurd ⟨info, q, rfl⟩ hmap
            | integer _ _ => rintro (h | ⟨_, h, -⟩) <;> cases h
            | string _ _ => rintro (h | ⟨_, h, -⟩) <;> cases h
            | list _ _ => rintro (h | ⟨_, h, -⟩) <;> cases h
        · rintro ⟨info, q, rfl, h⟩
          exact (parseTranscription_reports hinfo).mpr h
  · rename_i hinput
    refine iff_of_true (fun fault h => ?_) fun transcibe p h => absurd h (hinput transcibe p)
    cases h
    rfl

/-- The source `d4:infoi1ee`, whose `info` is an integer. -/
def integerInfoSource : List Byte := "d4:infoi1ee".toList.map ascii

theorem integer_info_unreported :
    ¬ Reports (construct (fun _ => .replicate 20 0) integerInfoSource >>= getTrackerUrls) := by
  intro h
  have hthrown : (construct (fun _ => .replicate 20 0) integerInfoSource >>= getTrackerUrls) =
      .error .badVariantAccess := rfl
  cases h _ hthrown

end TorrentFile

end TorrentEngine
