import TorrentEngine.FileTiling

/-! `files_for` against the map from bytes to files. The parts of files it returns for a piece cover the
bytes of the piece one by one, each in the file whose range it falls into. -/

namespace TorrentEngine

open Bencode Tiling

/-- The byte is within the range of the file. -/
def Holds (ranges : List FileRange) (byte file : Nat) : Prop :=
  ∃ range, ranges[file]? = some range ∧ range.startByte ≤ byte ∧ byte < range.endByte

/-- A file and an offset in it, for a byte of all files. -/
def Located (ranges : List FileRange) (cell : Nat × Nat) (byte : Nat) : Prop :=
  ∃ range, ranges[cell.1]? = some range ∧ range.startByte ≤ byte ∧ byte < range.endByte ∧
    cell.2 = byte - range.startByte

/-- Each range starts where the sizes before it end. -/
theorem getElem?_rangesFrom {startByte i size : Nat} {sizes : List Nat} (h : sizes[i]? = some size) :
    ∃ range, (rangesFrom startByte sizes)[i]? = some range ∧
      range.startByte = startByte + (sizes.take i).sum ∧
      range.endByte = range.startByte + size := by
  induction sizes generalizing startByte i with
  | nil => cases h
  | cons first sizes ih =>
      cases i with
      | zero =>
          cases h
          exact ⟨_, rfl, rfl, Nat.add_comm _ _⟩
      | succ i =>
          rw [List.getElem?_cons_succ] at h
          obtain ⟨range, hget, hstart, hend⟩ := @ih (startByte + first) i h
          refine ⟨range, hget, ?_, hend⟩
          rw [hstart, List.take_succ_cons, List.sum_cons, Nat.add_assoc]

theorem length_rangesFrom (startByte : Nat) (sizes : List Nat) :
    (rangesFrom startByte sizes).length = sizes.length := by
  induction sizes generalizing startByte with
  | nil => rfl
  | cons size sizes ih => rw [rangesFrom, List.length_cons, ih, List.length_cons]

/-- What holding a byte means in terms of the sizes. -/
theorem holds_rangesFrom {byte file : Nat} {sizes : List Nat} :
    Holds (rangesFrom 0 sizes) byte file ↔
      (sizes.take file).sum ≤ byte ∧ byte < (sizes.take (file + 1)).sum := by
  rcases Nat.lt_or_ge file sizes.length with hlt | hge
  · obtain ⟨range, hrange, hstart, -⟩ :=
      @getElem?_rangesFrom 0 _ _ _ (List.getElem?_eq_getElem hlt)
    have hend := endByte_rangesFrom hrange
    rw [Nat.zero_add] at hstart hend
    rw [← hstart, ← hend]
    constructor
    · rintro ⟨range', hrange', hbyte⟩
      obtain rfl := Option.some.inj (hrange.symm.trans hrange')
      exact hbyte
    · exact fun hbyte => ⟨range, hrange, hbyte⟩
  · have hnone : (rangesFrom 0 sizes)[file]? = none := by
      rwa [List.getElem?_eq_none_iff, length_rangesFrom]
    rw [List.take_of_length_le hge, List.take_of_length_le (by omega)]
    constructor
    · rintro ⟨range, hget, -⟩
      rw [hnone] at hget
      cases hget
    · omega

/-- A byte is within one file at most. -/
theorem holds_unique {byte file file' : Nat} {sizes : List Nat}
    (h : Holds (rangesFrom 0 sizes) byte file) (h' : Holds (rangesFrom 0 sizes) byte file') :
    file = file' := by
  rw [holds_rangesFrom] at h h'
  have hmono := List.monotone_sum_take sizes
  by_contra hne
  rcases Nat.lt_or_gt_of_ne hne with hlt | hgt
  · have := hmono (show file + 1 ≤ file' by omega)
    dsimp only at this
    omega
  · have := hmono (show file' + 1 ≤ file by omega)
    dsimp only at this
    omega

/-- The row of all bytes holds them in order. -/
theorem located_cellsFrom {sizes : List Nat} {byte : Nat} {cell : Nat × Nat}
    (h : (cellsFrom 0 sizes)[byte]? = some cell) : Located (rangesFrom 0 sizes) cell byte := by
  obtain ⟨i, size, hfile, hsize, hlt, hsum⟩ := getElem?_cellsFrom h
  obtain ⟨range, hrange, hstart, hend⟩ := @getElem?_rangesFrom 0 _ _ _ hsize
  rw [Nat.zero_add] at hfile
  rw [← hfile] at hrange
  exact ⟨range, hrange, by omega, by omega, by omega⟩

namespace PieceMapper

/-- The parts of a piece are not empty, and come in the order of the files. -/
theorem filesForLoop_increasing {mark fileIdx startByte remaining : Nat} {sizes : List Nat}
    (hmark : ∀ range ∈ rangesFrom startByte sizes, mark ≤ range.endByte)
    (hsum : startByte + sizes.sum < 2 ^ 64) (hremaining : remaining < 2 ^ 64) :
    let pieces := filesForLoop mark fileIdx (rangesFrom startByte sizes) remaining
    (∀ piece ∈ pieces, fileIdx ≤ piece.file ∧ 0 < piece.size) ∧
      pieces.Pairwise fun a b => a.file < b.file := by
  induction sizes generalizing fileIdx startByte remaining with
  | nil => exact ⟨fun piece h => absurd h List.not_mem_nil, .nil⟩
  | cons size sizes ih =>
      rw [rangesFrom, List.forall_mem_cons] at hmark
      rw [List.sum_cons] at hsum
      have hlater : ∀ remaining', remaining' < 2 ^ 64 → _ := fun remaining' hlt =>
        @ih (fileIdx + 1) (startByte + size) remaining' hmark.2 (by omega) hlt
      intro pieces
      have hpieces : pieces = _ := filesForLoop_cons hmark.1 (by omega) hremaining
      rw [hpieces]
      split
      · exact ⟨fun piece h => absurd h List.not_mem_nil, .nil⟩
      · split
        · obtain ⟨hall, hpairs⟩ := hlater remaining hremaining
          exact ⟨fun piece h => ⟨(Nat.le_succ fileIdx).trans (hall piece h).1, (hall piece h).2⟩,
            hpairs⟩
        · obtain ⟨hall, hpairs⟩ := hlater
            (remaining - min (size - (mark - startByte)) remaining) (by omega)
          constructor
          · rw [List.forall_mem_cons]
            refine ⟨⟨le_rfl, by dsimp only; omega⟩, fun piece h => ?_⟩
            exact ⟨(Nat.le_succ fileIdx).trans (hall piece h).1, (hall piece h).2⟩
          · exact List.pairwise_cons.mpr ⟨fun piece h => (hall piece h).1, hpairs⟩

theorem filesFor_increasing {length : Nat} (index : Nat) {sizes : List Nat} (hsum : sizes.sum < 2 ^ 64)
    (hlength : length < 2 ^ 64) :
    let pieces := filesFor ⟨length, rangesFrom 0 sizes⟩ index
    (pieces.Pairwise fun a b => a.file < b.file) ∧ ∀ piece ∈ pieces, 0 < piece.size := by
  obtain ⟨found, hpieces, -, hends, hsplit⟩ := filesFor_rangesFrom length index sizes
  rw [hpieces]
  obtain ⟨hall, hpairs⟩ := @filesForLoop_increasing _ found _ _ _ hends (by omega) hlength
  exact ⟨hpairs, fun piece hpiece => (hall piece hpiece).2⟩

/-- The bytes of a row of files, each with the file that holds it. -/
theorem cellsFrom_located (sizes : List Nat) :
    List.Forall₂ (Located (rangesFrom 0 sizes)) (cellsFrom 0 sizes)
      (List.range' 0 sizes.sum) := by
  rw [List.forall₂_iff_get]
  refine ⟨by rw [length_cellsFrom, List.length_range'], fun byte h₁ h₂ => ?_⟩
  rw [List.get_eq_getElem, List.get_eq_getElem, List.getElem_range', Nat.zero_add, Nat.one_mul]
  exact located_cellsFrom (List.getElem?_eq_getElem h₁)

variable {Path : Type} {fs : Filesystem Path}

/-- The constructor lays out files of these sizes one after the other. -/
theorem mapFiles_ranges {sizes : List Nat} (hsum : sizes.sum < 2 ^ 63) {files : List Data}
    {mapper : FileMapper Path} {built : List FileRange × FileMapper Path}
    (hfiles : files.map fileLength = sizes.map fun size : Nat => some (size : Int))
    (hbuilt : mapFiles fs files 0 0 (List.replicate files.length ⟨0, 0⟩) mapper = .ok built) :
    built.1 = rangesFrom 0 sizes := by
  have hlengths : files.filterMap fileLength = sizes.map Int.ofNat := by
    calc files.filterMap fileLength = (files.map fileLength).filterMap id := by
          rw [List.filterMap_map, Function.id_comp]
      _ = sizes.map Int.ofNat := by
          rw [hfiles, List.filterMap_map]
          exact congrFun List.filterMap_eq_map sizes
  have hnonneg : ∀ length ∈ sizes.map Int.ofNat, 0 ≤ length := by simp
  have hnats : (sizes.map Int.ofNat).map Int.toNat = sizes := by
    rw [List.map_map]
    exact List.map_id sizes
  have htotal := sum_toNat hnonneg
  rw [hnats] at htotal
  obtain ⟨hranges, -⟩ := @mapFiles_spec Path fs files 0 [] built.1 mapper built.2 hbuilt
    (by rwa [hlengths]) (by rw [hlengths]; omega)
  rw [hranges, hlengths, hnats, List.nil_append]

/-- The bytes of a piece, one after the other, are at their offsets in the files that hold them. -/
theorem filesFor_located {length index : Nat} {sizes : List Nat} (hsum : sizes.sum < 2 ^ 64)
    (hlength : length < 2 ^ 64) (hmark : index * length < 2 ^ 64) :
    List.Forall₂ (Located (rangesFrom 0 sizes))
      ((filesFor ⟨length, rangesFrom 0 sizes⟩ index).flatMap FilePiece.cells)
      (List.range' (index * length) (min ((index + 1) * length) sizes.sum - index * length)) := by
  have hchunk := List.forall₂_take length
    (List.forall₂_drop (index * length) (cellsFrom_located sizes))
  rw [← filesFor_cells hsum hlength hmark, List.drop_range', Nat.zero_add, Nat.mul_one] at hchunk
  have hcount : min ((index + 1) * length) sizes.sum - index * length =
      min length (sizes.sum - index * length) := by
    rw [Nat.succ_mul]
    omega
  rw [hcount]
  rcases Nat.le_total length (sizes.sum - index * length) with hle | hle
  · rw [Nat.min_eq_left hle]
    rwa [List.take_range'_of_length_ge hle] at hchunk
  · rw [Nat.min_eq_right hle]
    rwa [List.take_range'_of_length_le hle] at hchunk

/-- Each byte of the files is held by one of them. -/
theorem exists_unique_holds {sizes : List Nat} {byte : Nat} (hbyte : byte < sizes.sum) :
    ∃! file, Holds (rangesFrom 0 sizes) byte file := by
  have hlt : byte < (cellsFrom 0 sizes).length := by rwa [length_cellsFrom]
  obtain ⟨range, hrange, hstart, hend, -⟩ := located_cellsFrom (List.getElem?_eq_getElem hlt)
  exact ⟨_, ⟨range, hrange, hstart, hend⟩, fun file hfile =>
    holds_unique hfile ⟨range, hrange, hstart, hend⟩⟩

/-- The constructor lays out the files it is given one after the other, and from the ranges it builds
`files_for` returns, for a piece of any length that starts within the files, parts of files in increasing
order, none of them empty, that are the bytes of the piece one after the other, each of them at its offset
in the one file that holds it. -/
theorem filesFor_bytes (length : Nat) (hlength : length < 2 ^ 64)
    (sizes : List Nat) (hsum : sizes.sum < 2 ^ 63) (index : Nat) (hindex : index * length < sizes.sum) :
    let ranges := rangesFrom 0 sizes
    let pieces := filesFor ⟨length, ranges⟩ index
    (∀ files mapper built, files.map fileLength = sizes.map (fun size : Nat => some (size : Int)) →
        mapFiles fs files 0 0 (List.replicate files.length ⟨0, 0⟩) mapper = .ok built →
        built.1 = ranges) ∧
      (pieces.Pairwise fun a b => a.file < b.file) ∧ (∀ piece ∈ pieces, 0 < piece.size) ∧
      List.Forall₂ (Located ranges) (pieces.flatMap FilePiece.cells)
        (List.range' (index * length)
          (min ((index + 1) * length) sizes.sum - index * length)) ∧
      ∀ byte < sizes.sum, ∃! file, Holds ranges byte file := by
  intro ranges pieces
  obtain ⟨hpairs, hsizes⟩ := @filesFor_increasing length index sizes (by omega) hlength
  refine ⟨?_, hpairs, hsizes, filesFor_located (by omega) hlength (by omega), ?_⟩
  · intro files mapper built hfiles hbuilt
    exact mapFiles_ranges hsum hfiles hbuilt
  · intro byte hbyte
    exact exists_unique_holds hbyte

/-- Files of 0, 3, 0, 0 and 2 bytes, in pieces of 2 bytes: the second piece is the last byte of the second
file and the first of the fifth. -/
theorem filesFor_bytes_ghost_files :
    let ranges := rangesFrom 0 [0, 3, 0, 0, 2]
    let pieces := filesFor ⟨2, ranges⟩ 1
    pieces = [⟨1, 2, 1⟩, ⟨4, 0, 1⟩] ∧
      List.Forall₂ (Located ranges) (pieces.flatMap FilePiece.cells) (List.range' 2 2) := by
  intro ranges pieces
  obtain ⟨-, -, -, hbytes, -⟩ := @filesFor_bytes (List ByteString) plainDisk 2 (by decide)
    [0, 3, 0, 0, 2] (by decide) 1 (by decide)
  exact ⟨by decide, hbytes⟩

/-! ### Past the last byte -/

/-- `files_for` returns nothing exactly where the mark, with the product wrapped, is past the last byte. -/
theorem filesFor_eq_nil_iff {length : Nat} (index : Nat) {sizes : List Nat} (hsum : sizes.sum < 2 ^ 64)
    (hlength : length < 2 ^ 64) (hpositive : 0 < length) :
    filesFor ⟨length, rangesFrom 0 sizes⟩ index = [] ↔ sizes.sum ≤ SizeT.mul index length := by
  have hcells := filesFor_cells_mark index hsum hlength
  constructor
  · intro hnil
    rw [hnil, List.flatMap_nil] at hcells
    have hcount := congrArg List.length hcells
    rw [List.length_take, List.length_drop, length_cellsFrom, List.length_nil] at hcount
    omega
  · intro hpast
    rw [List.drop_of_length_le (by rwa [length_cellsFrom]), List.take_nil] at hcells
    exact eq_nil_of_cells (filesFor_increasing index hsum hlength).2 hcells

end PieceMapper

variable {Path : Type} {fs : Filesystem Path}

open TorrentFile

/-- There is no test of the index: of an accepted torrent, `files_for` returns nothing for an index
exactly where its product with the piece length, reduced modulo `2 ^ 64`, is not below the size of the
torrent. An index past the last piece whose product does not wrap is such an index. -/
theorem filesFor_nothing_iff {transcibe : Dictionary} {hash : Digest} {torrent : TorrentFile}
    (hparsed : parseTranscription (unparsed transcibe hash) = .ok (some torrent)) {directory : Path}
    {manager : FileManager Path} (hmanager : FileManager.construct fs directory torrent = .ok manager)
    {pieceLength : Int64} (hlength : torrent.getPieceLength = .ok pieceLength)
    (hpositive : 0 < pieceLength.toInt) (hnonneg : ∀ length ∈ torrent.declaredLengths, 0 ≤ length)
    (index : Nat) :
    (manager.pieceMap.filesFor index = [] ↔
        torrent.declaredLengths.sum ≤ SizeT.mul index (SizeT.ofInt pieceLength.toInt)) ∧
      (torrent.pieceCount ≤ index → index * pieceLength.toInt < 2 ^ 64 →
        manager.pieceMap.filesFor index = []) := by
  obtain ⟨length, hnat, hpos, hlt, hmapper, hsizes, hcover, -⟩ :=
    accepted_layout hparsed hmanager hlength hpositive hnonneg
  have htotal := sum_toNat hnonneg
  have hofInt : SizeT.ofInt pieceLength.toInt = length := by
    rw [SizeT.ofInt_of_nonneg (by omega) (by omega), hnat, Int.toNat_natCast]
  rw [hmapper, hofInt, hnat, ← htotal, Nat.cast_le,
    PieceMapper.filesFor_eq_nil_iff index (by omega) (by omega) hpos]
  refine ⟨Iff.rfl, fun hpast hproduct => ?_⟩
  have hmark : index * length < 2 ^ 64 := by exact_mod_cast hproduct
  rw [SizeT.mul_of_lt hmark]
  exact hcover.trans (Nat.mul_le_mul_right length hpast)

/-- The fourth piece of the album, the first one past its end. -/
theorem filesFor_nothing_iff_album :
    (albumManager.pieceMap.filesFor 3 = [] ↔
        album.declaredLengths.sum ≤ SizeT.mul 3 (SizeT.ofInt (2 : Int64).toInt)) ∧
      (album.pieceCount ≤ 3 → (3 : Nat) * (2 : Int64).toInt < 2 ^ 64 →
        albumManager.pieceMap.filesFor 3 = []) :=
  @filesFor_nothing_iff (List ByteString) plainDisk albumTranscibe (.replicate 20 0) album rfl []
    albumManager rfl 2 rfl (by decide) (by decide) 3

/-- Of three pieces of 2 bytes, piece `2 ^ 63` starts at byte 0 again. -/
theorem filesFor_pastEnd_wraps :
    parseTranscription (unparsed albumTranscibe (.replicate 20 0)) = .ok (some album) ∧
      FileManager.construct plainDisk [] album = .ok albumManager ∧
      album.getPieceLength = .ok 2 ∧ album.declaredLengths = [3, 0, 2] ∧
      album.pieceCount ≤ 2 ^ 63 ∧ albumManager.pieceMap.filesFor (2 ^ 63) = [⟨0, 0, 2⟩] := by
  refine ⟨rfl, rfl, rfl, rfl, ?_, ?_⟩
  · decide
  · decide

end TorrentEngine
