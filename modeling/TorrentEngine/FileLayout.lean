import TorrentEngine.FileBytes
import TorrentEngine.PathContainment

/-! Where on the disk the bytes of a torrent go. On a disk without links the path of a file tells the names that the
torrent gives for it, so two bytes of a torrent meet only where two of its files have the same names. Nothing refuses
such a torrent. -/

namespace TorrentEngine

open Bencode LexicalPath Tiling TorrentFile

/-! ### Declared paths -/

/-- The names that a file entry declares. -/
def filePath : Data → Option (List ByteString)
  | .dictionary fileMap _ =>
      match find "path" fileMap with
      | some (.list pathList _) => (PieceMapper.decodePathList pathList).toOption
      | _ => none
  | _ => none

/-- The names of each file of a torrent below its directory. A single file goes by the name of the torrent. -/
def TorrentFile.declaredPaths (torrent : TorrentFile) : List (List ByteString) :=
  if torrent.isFile then (torrent.getTorrentName.toOption.map fun name => [name]).toList
  else
    match torrent.files with
    | .ok (some files) => files.filterMap filePath
    | _ => []

/-- No link of the disk leads elsewhere. -/
structure Disk.Linkless (disk : Disk) : Prop where
  resolves : ∀ p q, disk.weaklyCanonical p = some q → Absolute q ∧ Normal q
  stays : ∀ p q, Absolute p → Normal p → [] ∉ elements p → disk.weaklyCanonical p = some q → q = p

/-- The path of a file with these names. -/
def placed (root : LexicalPath.Path) (path : List ByteString) : LexicalPath.Path :=
  fromRoot (names root ++ path.map ByteString.bytes)

/-- All names of a path are such as the mapper allows. -/
def Allowed (path : List ByteString) : Prop := ∀ name ∈ path, Plain name.bytes

section

variable {root : LexicalPath.Path} {path path' : List ByteString}

theorem Allowed.plain (hpath : Allowed path) (hroot : ∀ name ∈ names root, Plain name) :
    ∀ name ∈ names root ++ path.map ByteString.bytes, Plain name :=
  List.forall_mem_append.mpr ⟨hroot, List.forall_mem_map.mpr hpath⟩

theorem placed_injective (hroot : ∀ name ∈ names root, Plain name) (hpath : Allowed path) (hpath' : Allowed path')
    (h : placed root path = placed root path') : path = path' := by
  have hnames := congrArg names h
  rw [placed, placed, names_fromRoot (hpath.plain hroot), names_fromRoot (hpath'.plain hroot),
    List.append_cancel_left_eq] at hnames
  exact List.map_injective_iff.mpr (fun _ _ => ByteString.ext) hnames

/-- The path of one more name is normal too. -/
theorem append_placed (habs : Absolute root) (hnormal : Normal root) {name : ByteString} (hname : Plain name.bytes) :
    append root name.bytes = placed root [name] ∧ Absolute (placed root [name]) ∧ Normal (placed root [name]) ∧
      names (placed root [name]) = names root ++ [name.bytes] := by
  have hallowed : Allowed [name] := List.forall_mem_singleton.mpr hname
  have hplain := hallowed.plain (hnormal.names_plain habs)
  exact ⟨append_plain habs hnormal hname, absolute_fromRoot _, normal_fromRoot hplain, names_fromRoot hplain⟩

end

/-! ### The file table -/

namespace FileMapper

theorem plain_of_isValidName {name : ByteString} (h : isValidName name = true) : Plain name.bytes := by
  refine ⟨fun hname => ?_, fun hname => ?_, fun hname => ?_, fun hname => ?_⟩
  · rw [isValidName_of_forbidden (.empty hname)] at h
    cases h
  · rw [isValidName_of_forbidden (.dot hname)] at h
    cases h
  · rw [isValidName_of_forbidden (.dotDot hname)] at h
    cases h
  · rw [isValidName_of_forbidden (.slash hname)] at h
    cases h

variable {disk : Disk} {path : List ByteString} {root joined filePath : LexicalPath.Path}

/-- The names of a path, joined to a normal path one after the other. -/
theorem appendNames_placed (habs : Absolute root) (hnormal : Normal root) (hne : path ≠ [])
    (h : appendNames disk.filesystem path root = some joined) : joined = placed root path ∧ Allowed path := by
  induction path generalizing root with
  | nil => exact absurd rfl hne
  | cons name path ih =>
      rw [appendNames] at h
      split at h
      · rename_i hvalid
        have hname := plain_of_isValidName hvalid
        obtain ⟨happend, habs', hnormal', hnames⟩ := append_placed habs hnormal hname
        rw [show disk.filesystem.append root name = _ from happend] at h
        by_cases hlast : path = []
        · subst hlast
          cases h
          exact ⟨rfl, List.forall_mem_singleton.mpr hname⟩
        · obtain ⟨hjoined, hallowed⟩ := ih habs' hnormal' hlast h
          refine ⟨?_, List.forall_mem_cons.mpr ⟨hname, hallowed⟩⟩
          rw [hjoined]
          show fromRoot (names (placed root [name]) ++ path.map ByteString.bytes) = _
          rw [hnames, List.append_assoc, placed, List.map_cons, List.singleton_append]
      · cases h

theorem ifValidGetPath_joined {mapper : FileMapper LexicalPath.Path}
    (h : mapper.ifValidGetPath disk.filesystem path = some filePath) :
    path ≠ [] ∧ ∃ joined, appendNames disk.filesystem path mapper.rootDirectory = some joined ∧
      disk.weaklyCanonical (lexicallyNormal joined) = some filePath := by
  rw [ifValidGetPath] at h
  split at h
  · cases h
  · rename_i hne
    refine ⟨hne, ?_⟩
    split at h
    · cases h
    · rename_i joined happend
      refine ⟨joined, happend, ?_⟩
      split at h
      · cases h
      · rename_i canonical hcanonical
        split at h
        · cases h
        · dsimp only at h
          split at h
          · cases h
          · cases h
            exact hcanonical

theorem ifValidGetPath_placed (hdisk : disk.Linkless) {mapper : FileMapper LexicalPath.Path}
    (habs : Absolute mapper.rootDirectory) (hnormal : Normal mapper.rootDirectory)
    (h : mapper.ifValidGetPath disk.filesystem path = some filePath) :
    filePath = placed mapper.rootDirectory path ∧ Allowed path := by
  obtain ⟨hne, joined, happend, hcanonical⟩ := ifValidGetPath_joined h
  obtain ⟨rfl, hallowed⟩ := appendNames_placed habs hnormal hne happend
  have hplain := hallowed.plain (hnormal.names_plain habs)
  rw [placed, show lexicallyNormal (fromRoot _) = _ from normal_fromRoot hplain] at hcanonical
  exact ⟨hdisk.stays _ _ (absolute_fromRoot _) (normal_fromRoot hplain) (nil_not_mem_elements_fromRoot hplain)
    hcanonical, hallowed⟩

/-- The next entry of the file table. -/
theorem indexFile_placed (hdisk : disk.Linkless) {mapper mapper' : FileMapper LexicalPath.Path}
    (habs : Absolute mapper.rootDirectory) (hnormal : Normal mapper.rootDirectory) {size : Nat}
    (h : mapper.indexFile disk.filesystem path size = .ok mapper') :
    mapper'.rootDirectory = mapper.rootDirectory ∧ Allowed path ∧
      mapper'.fileTable.map FileT.path =
        mapper.fileTable.map FileT.path ++ [placed mapper.rootDirectory path] := by
  rw [indexFile] at h
  split at h
  · cases h
  · rename_i filePath hfilePath
    obtain ⟨rfl, hallowed⟩ := ifValidGetPath_placed hdisk habs hnormal hfilePath
    cases h
    refine ⟨rfl, hallowed, ?_⟩
    rw [List.map_append, List.map_singleton]

theorem construct_rootDirectory (hdisk : disk.Linkless) {directory : LexicalPath.Path} {torrent : TorrentFile}
    {mapper : FileMapper LexicalPath.Path} (h : construct disk.filesystem directory torrent = .ok mapper) :
    Absolute mapper.rootDirectory ∧ Normal mapper.rootDirectory := by
  rw [construct] at h
  split at h
  · cases h
  · rename_i root hroot
    obtain ⟨habs, hnormal⟩ := hdisk.resolves _ _ hroot
    obtain ⟨torrentRoot', htorrent, hcreated⟩ := Except.bind_eq_ok.mp h
    have hmapper : mapper.rootDirectory = torrentRoot' := by
      split at hcreated
      · cases hcreated
        rfl
      · cases hcreated
    rw [hmapper]
    rw [torrentRoot] at htorrent
    obtain ⟨name, -, hbranch⟩ := Except.bind_eq_ok.mp htorrent
    split at hbranch
    · cases hbranch
      exact ⟨habs, hnormal⟩
    · split at hbranch
      · cases hbranch
      · rename_i hvalid
        split at hbranch
        · cases hbranch
        · cases hbranch
        · cases hbranch
          have hname : Plain name.bytes := plain_of_isValidName (by simpa using hvalid)
          obtain ⟨happend, habs', hnormal', -⟩ := append_placed habs hnormal hname
          rw [show disk.filesystem.append root name = _ from happend]
          exact ⟨habs', hnormal'⟩

end FileMapper

namespace PieceMapper

variable {disk : Disk}

theorem mapFiles_placed (hdisk : disk.Linkless) {files : List Data} {fileIndex startByte : Nat}
    {ranges : List FileRange} {mapper : FileMapper LexicalPath.Path}
    {built : List FileRange × FileMapper LexicalPath.Path} (habs : Absolute mapper.rootDirectory)
    (hnormal : Normal mapper.rootDirectory)
    (h : mapFiles disk.filesystem files fileIndex startByte ranges mapper = .ok built) :
    (∀ path ∈ files.filterMap filePath, Allowed path) ∧ built.2.fileTable.map FileT.path =
      mapper.fileTable.map FileT.path ++ (files.filterMap filePath).map (placed mapper.rootDirectory) := by
  induction files generalizing fileIndex startByte ranges mapper with
  | nil =>
      cases h
      exact ⟨fun path hmem => absurd hmem List.not_mem_nil, (List.append_nil _).symm⟩
  | cons file files ih =>
      rw [mapFiles] at h
      obtain ⟨fileMap, hmap, h₁⟩ := Except.bind_eq_ok.mp h
      obtain ⟨found, -, h₂⟩ := Except.bind_eq_ok.mp h₁
      obtain ⟨length, -, h₃⟩ := Except.bind_eq_ok.mp h₂
      obtain ⟨path, hpath, h₄⟩ := Except.bind_eq_ok.mp h₃
      obtain ⟨pathList, hpathList, h₅⟩ := Except.bind_eq_ok.mp h₄
      obtain ⟨decoded, hdecoded, h₆⟩ := Except.bind_eq_ok.mp h₅
      obtain ⟨mapper₁, hindex, h₇⟩ := Except.bind_eq_ok.mp h₆
      obtain ⟨p, rfl⟩ := Data.getAsDictionary_eq_ok.mp hmap
      obtain ⟨p', rfl⟩ := Data.getAsList_eq_ok.mp hpathList
      have hfile : filePath (.dictionary fileMap p) = some decoded := by
        rw [filePath, dereference_eq_ok.mp hpath]
        exact congrArg Except.toOption hdecoded
      obtain ⟨hroot, hallowed, htable⟩ := FileMapper.indexFile_placed hdisk habs hnormal hindex
      obtain ⟨hrest, hbuilt⟩ := ih (hroot ▸ habs) (hroot ▸ hnormal) h₇
      rw [List.filterMap_cons_some hfile]
      refine ⟨List.forall_mem_cons.mpr ⟨hallowed, hrest⟩, ?_⟩
      rw [hbuilt, htable, hroot, List.map_cons, List.append_assoc, List.singleton_append]

end PieceMapper

namespace FileManager

variable {disk : Disk} {directory : LexicalPath.Path} {torrent : TorrentFile}
  {manager : FileManager LexicalPath.Path}

/-- The paths of the file table are those of the declared names below one directory. -/
theorem construct_placed (hdisk : disk.Linkless)
    (hmanager : FileManager.construct disk.filesystem directory torrent = .ok manager) :
    ∃ root, (∀ name ∈ names root, Plain name) ∧ (∀ path ∈ torrent.declaredPaths, Allowed path) ∧
      manager.fileMap.fileTable.map FileT.path = torrent.declaredPaths.map (placed root) := by
  obtain ⟨fileMap, hfileMap, h₁⟩ := Except.bind_eq_ok.mp hmanager
  obtain ⟨⟨pieceMap, fileMap'⟩, hpieceMap, h₂⟩ := Except.bind_eq_ok.mp h₁
  cases h₂
  have htable := FileMapper.construct_fileTable hfileMap
  obtain ⟨habs, hnormal⟩ := FileMapper.construct_rootDirectory hdisk hfileMap
  refine ⟨fileMap.rootDirectory, hnormal.names_plain habs, ?_⟩
  rw [PieceMapper.construct] at hpieceMap
  obtain ⟨pieceLength, -, h₃⟩ := Except.bind_eq_ok.mp hpieceMap
  dsimp only at h₃ ⊢
  rw [declaredPaths]
  cases hfile : torrent.isFile with
  | true =>
      rw [hfile, if_pos rfl] at h₃
      obtain ⟨name, hname, h₄⟩ := Except.bind_eq_ok.mp h₃
      obtain ⟨mapper, hindex, h₅⟩ := Except.bind_eq_ok.mp h₄
      cases h₅
      obtain ⟨-, hallowed, hpaths⟩ := FileMapper.indexFile_placed hdisk habs hnormal hindex
      rw [if_pos rfl, hname, hpaths, htable]
      exact ⟨List.forall_mem_singleton.mpr hallowed, rfl⟩
  | false =>
      rw [hfile, if_neg Bool.false_ne_true] at h₃
      obtain ⟨found, hfound, h₄⟩ := Except.bind_eq_ok.mp h₃
      rw [if_neg Bool.false_ne_true, hfound]
      cases found with
      | none => cases h₄
      | some files =>
          obtain ⟨⟨ranges, mapper⟩, hmap, h₅⟩ := Except.bind_eq_ok.mp h₄
          cases h₅
          obtain ⟨hallowed, hpaths⟩ := PieceMapper.mapFiles_placed hdisk habs hnormal hmap
          rw [htable] at hpaths
          exact ⟨hallowed, hpaths⟩

end FileManager

/-! ### The places of the bytes -/

namespace FileT

variable {Path : Type}

/-- The bytes of a file: its path, and an offset in it. -/
def places (file : FileT Path) : List (Path × Nat) := (List.range file.size).map fun offset => (file.path, offset)

theorem mem_places {file : FileT Path} {place : Path × Nat} :
    place ∈ file.places ↔ place.1 = file.path ∧ place.2 < file.size := by
  rw [places, List.mem_map]
  constructor
  · rintro ⟨offset, hoffset, rfl⟩
    exact ⟨rfl, List.mem_range.mp hoffset⟩
  · rintro ⟨hpath, hoffset⟩
    exact ⟨place.2, List.mem_range.mpr hoffset, Prod.ext hpath.symm rfl⟩

theorem nodup_places (file : FileT Path) : file.places.Nodup :=
  List.Nodup.map (fun _ _ h => (Prod.mk.inj h).2) List.nodup_range

/-- Files meet where they have one path, unless one of them is empty. -/
theorem disjoint_places (file file' : FileT Path) : List.Disjoint file.places file'.places ↔
    (0 < file.size → 0 < file'.size → file.path ≠ file'.path) := by
  constructor
  · intro hdisjoint hfile hfile' hpath
    have hfirst : (file.path, 0) ∈ file.places := mem_places.mpr ⟨rfl, hfile⟩
    exact hdisjoint hfirst (mem_places.mpr ⟨hpath, hfile'⟩)
  · intro hpaths place hplace hplace'
    obtain ⟨hpath, hlt⟩ := mem_places.mp hplace
    obtain ⟨hpath', hlt'⟩ := mem_places.mp hplace'
    exact hpaths (Nat.zero_lt_of_lt hlt) (Nat.zero_lt_of_lt hlt') (hpath.symm.trans hpath')

theorem nodup_flatMap_places (table : List (FileT Path)) : (table.flatMap places).Nodup ↔
    ((table.filter fun file => 0 < file.size).map FileT.path).Nodup := by
  have hpaths : ((table.filter fun file => 0 < file.size).map FileT.path).Nodup ↔ table.Pairwise fun file file' =>
      decide (0 < file.size) = true → decide (0 < file'.size) = true → file.path ≠ file'.path := by
    rw [List.Nodup, List.pairwise_map, List.pairwise_filter]
  rw [List.nodup_flatMap, hpaths]
  constructor
  · rintro ⟨-, hpairs⟩
    refine hpairs.imp fun {file file'} hdisjoint hfile hfile' => ?_
    exact (disjoint_places file file').mp hdisjoint (of_decide_eq_true hfile) (of_decide_eq_true hfile')
  · intro hpairs
    refine ⟨fun file _ => nodup_places file, hpairs.imp fun {file file'} hpaths => ?_⟩
    exact (disjoint_places file file').mpr fun hfile hfile' =>
      hpaths (decide_eq_true hfile) (decide_eq_true hfile')

/-- The cells of the files of a table are their bytes. -/
theorem filterMap_cellsFrom (before table : List (FileT Path)) :
    (cellsFrom before.length (table.map FileT.size)).filterMap
        (fun cell => ((before ++ table)[cell.1]?).map fun file => (file.path, cell.2)) =
      table.flatMap places := by
  induction table generalizing before with
  | nil => rfl
  | cons file table ih =>
      have hfile : (before ++ file :: table)[before.length]? = some file := by
        rw [List.getElem?_append_right (Nat.le_refl _), Nat.sub_self, List.getElem?_cons_zero]
      have hrest := ih (before ++ [file])
      rw [List.length_append, List.length_singleton, List.append_assoc, List.singleton_append] at hrest
      rw [List.map_cons, cellsFrom, List.filterMap_append, hrest, List.flatMap_cons, fragment, List.filterMap_map,
        ← List.range_eq_range', places, ← List.filterMap_eq_map]
      congr 2
      funext offset
      exact congrArg (Option.map _) hfile

end FileT

namespace FileManager

/-- Where the bytes of the pieces go, piece after piece. -/
def places {Path : Type} (manager : FileManager Path) (pieceCount : Nat) : List (Path × Nat) :=
  (List.range pieceCount).flatMap fun i => (manager.pieceMap.filesFor i).flatMap fun piece =>
    piece.cells.filterMap fun cell => (manager.fileMap.fileTable[cell.1]?).map fun file => (file.path, cell.2)

section

variable {Path : Type} {fs : Filesystem Path} {transcibe : Dictionary} {hash : Digest} {torrent : TorrentFile}
  {directory : Path} {manager : FileManager Path} {pieceLength : Int64}

/-- The bytes of the pieces are those of the files of the table. -/
theorem places_eq (hparsed : parseTranscription (unparsed transcibe hash) = .ok (some torrent))
    (hmanager : FileManager.construct fs directory torrent = .ok manager)
    (hlength : torrent.getPieceLength = .ok pieceLength) (hpositive : 0 < pieceLength.toInt)
    (hnonneg : ∀ length ∈ torrent.declaredLengths, 0 ≤ length) :
    manager.places torrent.pieceCount = manager.fileMap.fileTable.flatMap FileT.places := by
  obtain ⟨length, -, hpos, hlt, hmapper, hsizes, hcover, hlast⟩ :=
    accepted_layout hparsed hmanager hlength hpositive hnonneg
  have htotal := sum_toNat hnonneg
  obtain ⟨-, htable, -⟩ := construct_ranges hparsed hmanager hnonneg (by omega)
  have hcells := FileT.filterMap_cellsFrom [] manager.fileMap.fileTable
  rw [htable, List.length_nil, List.nil_append] at hcells
  rw [← hcells, places, hmapper]
  generalize torrent.declaredLengths.map Int.toNat = sizes at *
  have hchunk : ∀ i ∈ List.range torrent.pieceCount,
      (PieceMapper.filesFor ⟨length, rangesFrom 0 sizes⟩ i).flatMap FilePiece.cells =
        ((cellsFrom 0 sizes).drop (i * length)).take length := by
    intro i hi
    have hlt := List.mem_range.mp hi
    have hle : i * length ≤ (torrent.pieceCount - 1) * length := Nat.mul_le_mul_right length (by omega)
    have hbefore := hlast (by omega)
    exact PieceMapper.filesFor_cells (by omega) (by omega) (by omega)
  have hrow : (cellsFrom 0 sizes).take (torrent.pieceCount * length) = cellsFrom 0 sizes :=
    List.take_of_length_le (by rwa [length_cellsFrom])
  rw [← hrow, ← flatMap_chunks, List.filterMap_flatMap]
  refine List.flatMap_congr fun i hi => ?_
  rw [← hchunk i hi, List.filterMap_flatMap]

end

section

variable {disk : Disk} {transcibe : Dictionary} {hash : Digest} {torrent : TorrentFile}
  {directory : LexicalPath.Path} {manager : FileManager LexicalPath.Path} {pieceLength : Int64}

/-- The files of a torrent that hold bytes, by their names. -/
def declaredNonempty (torrent : TorrentFile) : List (List ByteString) :=
  ((torrent.declaredLengths.zip torrent.declaredPaths).filter fun file => 0 < file.1).map Prod.snd

theorem construct_nonempty (hdisk : disk.Linkless)
    (hparsed : parseTranscription (unparsed transcibe hash) = .ok (some torrent))
    (hmanager : FileManager.construct disk.filesystem directory torrent = .ok manager)
    (hnonneg : ∀ length ∈ torrent.declaredLengths, 0 ≤ length) :
    ∃ root, (∀ name ∈ names root, Plain name) ∧ (∀ path ∈ declaredNonempty torrent, Allowed path) ∧
      ((manager.fileMap.fileTable.filter fun file => 0 < file.size).map FileT.path) =
        (declaredNonempty torrent).map (placed root) := by
  obtain ⟨hdownload, -, -⟩ := parseTranscription_sizes hparsed
  have hfits := torrent.downloadSize.toInt_lt
  obtain ⟨-, hsizes, -⟩ := construct_ranges hparsed hmanager hnonneg (by omega)
  obtain ⟨root, hroot, hallowed, hpaths⟩ := construct_placed hdisk hmanager
  refine ⟨root, hroot, fun path hpath => ?_, ?_⟩
  · obtain ⟨file, hfile, rfl⟩ := List.mem_map.mp hpath
    exact hallowed _ (List.of_mem_zip (List.mem_of_mem_filter hfile)).2
  · have hfiles : manager.fileMap.fileTable.map (fun file => (file.size, file.path)) =
        (torrent.declaredLengths.zip torrent.declaredPaths).map (Prod.map Int.toNat (placed root)) := by
      rw [← List.zip_map, ← hsizes, ← hpaths, List.zip_map']
    have htable : (manager.fileMap.fileTable.filter fun file => 0 < file.size).map FileT.path =
        ((manager.fileMap.fileTable.map fun file => (file.size, file.path)).filter fun file =>
          0 < file.1).map Prod.snd := by
      rw [List.filter_map, List.map_map]
      rfl
    have hpositive : ((torrent.declaredLengths.zip torrent.declaredPaths).filter fun file => 0 < file.1.toNat) =
        (torrent.declaredLengths.zip torrent.declaredPaths).filter fun file => 0 < file.1 :=
      List.filter_congr fun file _ => decide_eq_decide.mpr Int.lt_toNat
    rw [htable, hfiles, declaredNonempty, List.filter_map, List.map_map, List.map_map, ← hpositive]
    rfl

/-- **Where two bytes meet.** On a disk without links the bytes of an accepted torrent all have their own places if
and only if no two files that hold bytes have the same names. Neither `parse_transcription` nor the mappers refuse the
others. -/
theorem places_nodup_iff (hdisk : disk.Linkless)
    (hparsed : parseTranscription (unparsed transcibe hash) = .ok (some torrent))
    (hmanager : FileManager.construct disk.filesystem directory torrent = .ok manager)
    (hlength : torrent.getPieceLength = .ok pieceLength) (hpositive : 0 < pieceLength.toInt)
    (hnonneg : ∀ length ∈ torrent.declaredLengths, 0 ≤ length) :
    (manager.places torrent.pieceCount).Nodup ↔ (declaredNonempty torrent).Nodup := by
  obtain ⟨root, hroot, hallowed, htable⟩ := construct_nonempty hdisk hparsed hmanager hnonneg
  rw [places_eq hparsed hmanager hlength hpositive hnonneg, FileT.nodup_flatMap_places, htable]
  refine ⟨List.Nodup.of_map _, fun hnodup => hnodup.map_on fun path hpath path' hpath' heq => ?_⟩
  exact placed_injective hroot (hallowed path hpath) (hallowed path' hpath') heq

end

/-! Two files of 1 byte under the name `a`, with an empty one between them. -/

theorem linklessDisk_linkless : FileMapper.linklessDisk.Linkless where
  resolves p q h := by
    rw [FileMapper.linklessDisk, Option.ite_none_right_eq_some, Bool.and_eq_true, beq_iff_eq] at h
    obtain ⟨⟨habsolute, hnormal⟩, hq⟩ := h
    cases hq
    exact ⟨habsolute, hnormal⟩
  stays p q _ _ _ h := by
    rw [FileMapper.linklessDisk, Option.ite_none_right_eq_some] at h
    exact (Option.some.inj h.2).symm

def doubleTranscibe : Dictionary :=
  [(.ofString "info", .dictionary
    [(.ofString "files", .list [albumFile "a" 1, albumFile "b" 0, albumFile "a" 1] ⟨0, 0⟩),
      (.ofString "name", .string (.ofString "d") ⟨0, 0⟩),
      (.ofString "piece length", .integer 2 ⟨0, 0⟩),
      (.ofString "pieces", .string ⟨List.replicate 20 0, by decide⟩ ⟨0, 0⟩)] ⟨0, 0⟩)]

def double : TorrentFile := ⟨doubleTranscibe, .replicate 20 0, false, 2, 1, 3⟩

theorem places_nodup_iff_double : ∃ manager,
    FileManager.construct FileMapper.linklessDisk.filesystem [47, 100] double = .ok manager ∧
      ¬ (manager.places double.pieceCount).Nodup := by
  have hok : (FileManager.construct FileMapper.linklessDisk.filesystem [47, 100] double).isOk = true := by decide
  cases hmanager : FileManager.construct FileMapper.linklessDisk.filesystem [47, 100] double with
  | error fault =>
      rw [hmanager] at hok
      cases hok
  | ok manager =>
      refine ⟨manager, rfl, fun hnodup => ?_⟩
      have hnames := (@places_nodup_iff _ doubleTranscibe (.replicate 20 0) double _ manager 2
        linklessDisk_linkless rfl hmanager rfl (by decide) (by decide)).mp hnodup
      exact absurd hnames (by decide)

end FileManager

end TorrentEngine
