import Mathlib.Algebra.Order.BigOperators.Group.List
import TorrentEngine.FileManager

/-! The pieces of an accepted torrent tile its files. The parts `files_for` returns for one piece are a
chunk of the row of all bytes of all files, and the chunks of all pieces make up the row. -/

namespace TorrentEngine

open Bencode Tiling

/-! ### Declared lengths -/

/-- The length a file entry declares. -/
def fileLength : Data → Option Int
  | .dictionary fileMap _ =>
      match find "length" fileMap with
      | some (.integer length _) => some length.toInt
      | _ => none
  | _ => none

/-- The lengths of the files an info dictionary declares, in order. -/
def infoLengths (info : Dictionary) : List Int :=
  match find "length" info with
  | some (.integer length _) => [length.toInt]
  | _ =>
      match find "files" info with
      | some (.list files _) => files.filterMap fileLength
      | _ => []

def TorrentFile.declaredLengths (torrent : TorrentFile) : List Int :=
  match torrent.infoMap with
  | .ok info => infoLengths info
  | .error _ => []

namespace TorrentFile

theorem addSigned_spec {a b c : Int64} (h : addSigned a b = .ok c) :
    c.toInt = a.toInt + b.toInt := by
  rw [addSigned] at h
  split at h
  · rename_i hrange
    cases h
    rw [Int64.toInt_add, Int.bmod_eq_of_le]
    · exact hrange.1
    · exact hrange.2
  · cases h

theorem addFiles_spec {files : List Data} {before total : Int64}
    (h : addFiles files before = .ok (some total)) :
    total.toInt = before.toInt + (files.filterMap fileLength).sum := by
  induction files generalizing before with
  | nil =>
      cases h
      simp
  | cons file files ih =>
      rw [addFiles] at h
      obtain ⟨fileMap, hmap, hrest⟩ := Except.bind_eq_ok.mp h
      obtain ⟨p, rfl⟩ := Data.getAsDictionary_eq_ok.mp hmap
      split at hrest
      · cases hrest
      · rename_i found hfound
        obtain ⟨length, hlength, hadds⟩ := Except.bind_eq_ok.mp hrest
        obtain ⟨after, hadd, hloop⟩ := Except.bind_eq_ok.mp hadds
        obtain ⟨p', rfl⟩ := Data.getAsInteger_eq_ok.mp hlength
        split at hloop
        · have hfile : fileLength (.dictionary fileMap p) = some length.toInt := by
            rw [fileLength, hfound]
          rw [ih hloop, addSigned_spec hadd, List.filterMap_cons_some hfile, List.sum_cons]
          omega
        · cases hloop

theorem ceilDiv_spec {a b count : Nat} (h : ceilDiv a b = .ok count) :
    a ≤ count * b ∧ (0 < count → (count - 1) * b < a) := by
  rw [ceilDiv] at h
  split at h
  · cases h
  · rename_i hb
    cases h
    have hdiv := Nat.div_add_mod a b
    have hmod := Nat.mod_lt a (Nat.pos_of_ne_zero hb)
    rw [Nat.mul_comm] at hdiv
    split
    · rename_i hne
      rw [Nat.add_mul, Nat.one_mul]
      refine ⟨by omega, fun _ => ?_⟩
      rw [Nat.add_sub_cancel]
      omega
    · rename_i hzero
      rw [not_not] at hzero
      rw [Nat.add_zero]
      refine ⟨by omega, fun hpos => ?_⟩
      rw [Nat.sub_mul, Nat.one_mul]
      have := Nat.le_mul_of_pos_left b hpos
      omega

end TorrentFile

/-! ### The ranges -/

/-- The ranges of consecutive files of these sizes. -/
def rangesFrom (startByte : Nat) : List Nat → List FileRange
  | [] => []
  | size :: sizes => ⟨startByte, size + startByte⟩ :: rangesFrom (startByte + size) sizes

theorem drop_rangesFrom (startByte n : Nat) (sizes : List Nat) :
    (rangesFrom startByte sizes).drop n =
      rangesFrom (startByte + (sizes.take n).sum) (sizes.drop n) := by
  induction sizes generalizing startByte n with
  | nil => simp [rangesFrom]
  | cons size sizes ih =>
      cases n with
      | zero => simp
      | succ n =>
          rw [rangesFrom, List.drop_succ_cons, ih, List.take_succ_cons, List.sum_cons,
            List.drop_succ_cons, Nat.add_assoc]

/-- A range ends where the sizes up to it have been added up. -/
theorem endByte_rangesFrom {startByte n : Nat} {sizes : List Nat} {range : FileRange}
    (h : (rangesFrom startByte sizes)[n]? = some range) :
    range.endByte = startByte + (sizes.take (n + 1)).sum := by
  induction sizes generalizing startByte n with
  | nil => cases h
  | cons size sizes ih =>
      cases n with
      | zero =>
          cases h
          simp [Nat.add_comm]
      | succ n =>
          rw [rangesFrom, List.getElem?_cons_succ] at h
          rw [ih h, List.take_succ_cons, List.sum_cons, Nat.add_assoc]

theorem pairwise_endByte_rangesFrom (startByte mark : Nat) (sizes : List Nat) :
    (rangesFrom startByte sizes).Pairwise fun a b =>
      decide (b.endByte < mark) = true → decide (a.endByte < mark) = true := by
  rw [List.pairwise_iff_getElem]
  intro i j hi hj hij
  rw [endByte_rangesFrom (List.getElem?_eq_getElem hi),
    endByte_rangesFrom (List.getElem?_eq_getElem hj), decide_eq_true_iff, decide_eq_true_iff]
  have hle : (sizes.take (i + 1)).sum ≤ (sizes.take (j + 1)).sum :=
    List.monotone_sum_take sizes (Nat.succ_le_succ hij.le)
  omega

/-! ### One piece -/

/-- The bytes of a part of a file. -/
def FilePiece.cells (piece : FilePiece) : List (Nat × Nat) :=
  fragment piece.file piece.offset piece.size

namespace PieceMapper

/-- One turn of the loop: a file that the piece starts after is skipped, and of any other the piece
takes what is left of it, as far as the piece goes. -/
theorem filesForLoop_cons {mark fileIdx startByte size remaining : Nat} {rest : List FileRange}
    (hmark : mark ≤ size + startByte) (hend : size + startByte < 2 ^ 64)
    (hremaining : remaining < 2 ^ 64) :
    filesForLoop mark fileIdx (⟨startByte, size + startByte⟩ :: rest) remaining =
      if remaining = 0 then []
      else if size ≤ mark - startByte then filesForLoop mark (fileIdx + 1) rest remaining
      else ⟨fileIdx, mark - startByte, min (size - (mark - startByte)) remaining⟩ ::
        filesForLoop mark (fileIdx + 1) rest
          (remaining - min (size - (mark - startByte)) remaining) := by
  have havailable : SizeT.sub (size + startByte) startByte = size := by
    rw [SizeT.sub_of_le (by omega) hend]
    omega
  rw [filesForLoop]
  dsimp only
  rw [havailable]
  split
  · rfl
  · by_cases hskip : size ≤ mark - startByte
    · rw [if_pos (by omega), if_pos hskip]
    · have hstart : (if mark > startByte then SizeT.sub mark startByte else 0) =
          mark - startByte := by
        split
        · rw [SizeT.sub_of_le (by omega) (by omega)]
        · omega
      have hleft : (if mark > startByte then SizeT.sub (size + startByte) mark else size) =
          size - (mark - startByte) := by
        split
        · rw [SizeT.sub_of_le hmark hend]
          omega
        · omega
      rw [if_neg (by omega), if_neg hskip, hstart, hleft,
        SizeT.sub_of_le (Nat.min_le_right _ _) hremaining]

/-- The parts of one piece are its chunk of the row of all bytes. -/
theorem filesForLoop_cells {mark fileIdx startByte remaining : Nat} {sizes : List Nat}
    (hmark : ∀ range ∈ rangesFrom startByte sizes, mark ≤ range.endByte)
    (hsum : startByte + sizes.sum < 2 ^ 64) (hremaining : remaining < 2 ^ 64) :
    (filesForLoop mark fileIdx (rangesFrom startByte sizes) remaining).flatMap FilePiece.cells =
      ((cellsFrom fileIdx sizes).drop (mark - startByte)).take remaining := by
  induction sizes generalizing fileIdx startByte remaining with
  | nil => simp [rangesFrom, filesForLoop, cellsFrom]
  | cons size sizes ih =>
      rw [rangesFrom] at hmark ⊢
      rw [List.sum_cons] at hsum
      have hfirst : mark ≤ size + startByte := hmark _ List.mem_cons_self
      have hrest := fun range h => hmark range (List.mem_cons_of_mem _ h)
      rw [filesForLoop_cons hfirst (by omega) hremaining, cellsFrom, List.drop_append,
        length_fragment]
      split
      · rename_i hzero
        rw [hzero, List.take_zero]
        rfl
      · split
        · rename_i hskip
          rw [ih hrest (by omega) hremaining, drop_fragment,
            show size - (mark - startByte) = 0 by omega, fragment_zero, List.nil_append]
          congr 2
          omega
        · rename_i hskip
          rw [List.flatMap_cons, ih hrest (by omega) (by omega), FilePiece.cells, drop_fragment,
            Nat.zero_add, List.take_append, take_fragment, length_fragment, Nat.min_comm]
          have hleft : remaining - min remaining (size - (mark - startByte)) =
              remaining - (size - (mark - startByte)) := by omega
          rw [hleft, Nat.sub_add_eq]

theorem filesForLoop_within {mark fileIdx startByte remaining : Nat} {sizes : List Nat}
    (hmark : ∀ range ∈ rangesFrom startByte sizes, mark ≤ range.endByte)
    (hsum : startByte + sizes.sum < 2 ^ 64) (hremaining : remaining < 2 ^ 64) {piece : FilePiece}
    (hpiece : piece ∈ filesForLoop mark fileIdx (rangesFrom startByte sizes) remaining) :
    ∃ i size, piece.file = fileIdx + i ∧ sizes[i]? = some size ∧ piece.offset + piece.size ≤ size := by
  induction sizes generalizing fileIdx startByte remaining with
  | nil => exact absurd hpiece List.not_mem_nil
  | cons size sizes ih =>
      have hlater : ∀ remaining', remaining' < 2 ^ 64 → piece ∈ filesForLoop mark (fileIdx + 1)
          (rangesFrom (startByte + size) sizes) remaining' → ∃ i size', piece.file = fileIdx + i ∧
            (size :: sizes)[i]? = some size' ∧ piece.offset + piece.size ≤ size' := by
        intro remaining' hlt hmem
        rw [List.sum_cons] at hsum
        obtain ⟨i, size', hfile, hsize, hle⟩ :=
          ih (fun range h => hmark range (List.mem_cons_of_mem _ h)) (by omega) hlt hmem
        exact ⟨i + 1, size', by omega, hsize, hle⟩
      rw [rangesFrom] at hmark hpiece
      rw [List.sum_cons] at hsum
      rw [filesForLoop_cons (hmark _ List.mem_cons_self) (by omega) hremaining] at hpiece
      split at hpiece
      · exact absurd hpiece List.not_mem_nil
      · split at hpiece
        · exact hlater _ hremaining hpiece
        · rcases List.mem_cons.mp hpiece with rfl | hpiece
          · exact ⟨0, size, rfl, rfl, by dsimp only; omega⟩
          · exact hlater _ (by omega) hpiece

/-- Where the search finds the first file of a piece: the files before it end before the piece starts,
the others do not. -/
theorem lowerBound_rangesFrom (mark : Nat) (sizes : List Nat) :
    let found := lowerBound (fun a : FileRange => decide (a.endByte < mark)) (rangesFrom 0 sizes)
    (sizes.take found).sum ≤ mark ∧
      ∀ range ∈ rangesFrom (0 + (sizes.take found).sum) (sizes.drop found), mark ≤ range.endByte := by
  intro found
  have hspec : ∀ (i : Nat) range, (rangesFrom 0 sizes)[i]? = some range →
      (range.endByte < mark ↔ i < found) := by
    intro i range hrange
    rw [← lowerBound_spec (pairwise_endByte_rangesFrom 0 mark sizes) hrange, decide_eq_true_iff]
  constructor
  · rcases Nat.eq_zero_or_pos found with hzero | hpos
    · rw [hzero]
      exact Nat.zero_le _
    · have hle : found ≤ (rangesFrom 0 sizes).length := lowerBound_le_length _ _
      have hget := List.getElem?_eq_getElem (show found - 1 < (rangesFrom 0 sizes).length by omega)
      have hbelow := (hspec _ _ hget).mpr (by omega)
      rw [endByte_rangesFrom hget, Nat.sub_add_cancel hpos] at hbelow
      omega
  · rw [← drop_rangesFrom]
    intro range hrange
    obtain ⟨i, hi⟩ := List.mem_iff_getElem?.mp hrange
    rw [List.getElem?_drop] at hi
    have := hspec _ _ hi
    omega

/-- `files_for` goes through the files from the one that the search finds for the mark. -/
theorem filesFor_rangesFrom (length index : Nat) (sizes : List Nat) :
    ∃ found, filesFor ⟨length, rangesFrom 0 sizes⟩ index =
        filesForLoop (SizeT.mul index length) found
          (rangesFrom (0 + (sizes.take found).sum) (sizes.drop found)) length ∧
      (sizes.take found).sum ≤ SizeT.mul index length ∧
      (∀ range ∈ rangesFrom (0 + (sizes.take found).sum) (sizes.drop found),
        SizeT.mul index length ≤ range.endByte) ∧
      (sizes.take found).sum + (sizes.drop found).sum = sizes.sum := by
  obtain ⟨hle, hends⟩ := lowerBound_rangesFrom (SizeT.mul index length) sizes
  refine ⟨_, ?_, hle, hends, ?_⟩
  · rw [filesFor]
    dsimp only
    rw [drop_rangesFrom]
  · rw [← List.sum_append, List.take_append_drop]

/-- `files_for` returns the chunk of the row of all bytes that starts at the mark, wherever the product
of index and piece length has wrapped to. -/
theorem filesFor_cells_mark {length : Nat} (index : Nat) {sizes : List Nat} (hsum : sizes.sum < 2 ^ 64)
    (hlength : length < 2 ^ 64) :
    (filesFor ⟨length, rangesFrom 0 sizes⟩ index).flatMap FilePiece.cells =
      ((cellsFrom 0 sizes).drop (SizeT.mul index length)).take length := by
  obtain ⟨found, hpieces, hle, hends, hsplit⟩ := filesFor_rangesFrom length index sizes
  have hdrop := drop_cellsFrom 0 found sizes
  rw [hpieces, filesForLoop_cells hends (by omega) hlength]
  congr 1
  rw [Nat.zero_add] at hdrop ⊢
  rw [← hdrop, List.drop_drop, Nat.add_sub_cancel' hle]

theorem filesFor_cells {length index : Nat} {sizes : List Nat} (hsum : sizes.sum < 2 ^ 64)
    (hlength : length < 2 ^ 64) (hmark : index * length < 2 ^ 64) :
    (filesFor ⟨length, rangesFrom 0 sizes⟩ index).flatMap FilePiece.cells =
      ((cellsFrom 0 sizes).drop (index * length)).take length := by
  rw [filesFor_cells_mark index hsum hlength, SizeT.mul_of_lt hmark]

theorem filesFor_within {length index : Nat} {sizes : List Nat} (hsum : sizes.sum < 2 ^ 64)
    (hlength : length < 2 ^ 64) {piece : FilePiece}
    (hpiece : piece ∈ filesFor ⟨length, rangesFrom 0 sizes⟩ index) :
    ∃ size, sizes[piece.file]? = some size ∧ piece.offset + piece.size ≤ size := by
  obtain ⟨found, hpieces, -, hends, hsplit⟩ := filesFor_rangesFrom length index sizes
  rw [hpieces] at hpiece
  obtain ⟨i, size, hfile, hsize, hwithin⟩ :=
    filesForLoop_within hends (by omega) hlength hpiece
  rw [List.getElem?_drop, ← hfile] at hsize
  exact ⟨size, hsize, hwithin⟩

theorem sum_sizes (pieces : List FilePiece) :
    (pieces.map FilePiece.size).sum = (pieces.flatMap FilePiece.cells).length := by
  induction pieces with
  | nil => rfl
  | cons piece pieces ih =>
      rw [List.map_cons, List.sum_cons, ih, List.flatMap_cons, List.length_append, FilePiece.cells,
        length_fragment]

/-- Parts that are not empty have bytes. -/
theorem eq_nil_of_cells {pieces : List FilePiece} (hsizes : ∀ piece ∈ pieces, 0 < piece.size)
    (hcells : pieces.flatMap FilePiece.cells = []) : pieces = [] := by
  rw [List.eq_nil_iff_forall_not_mem]
  intro piece hpiece
  have hnone := List.flatMap_eq_nil_iff.mp hcells piece hpiece
  have hlength := length_fragment piece.file piece.offset piece.size
  rw [← FilePiece.cells, hnone] at hlength
  have := hsizes piece hpiece
  simp at hlength
  omega

theorem filesFor_size {length index : Nat} {sizes : List Nat} (hsum : sizes.sum < 2 ^ 64)
    (hlength : length < 2 ^ 64) (hmark : index * length < 2 ^ 64) :
    ((filesFor ⟨length, rangesFrom 0 sizes⟩ index).map FilePiece.size).sum =
      min length (sizes.sum - index * length) := by
  rw [sum_sizes, filesFor_cells hsum hlength hmark, List.length_take, List.length_drop,
    length_cellsFrom]

/-! ### The ranges and the file table -/

variable {Path : Type} {fs : Filesystem Path}

theorem indexFile_spec {mapper mapper' : FileMapper Path} {names : List ByteString} {size : Nat}
    (h : mapper.indexFile fs names size = .ok mapper') :
    mapper'.fileTable.map FileT.size = mapper.fileTable.map FileT.size ++ [size] := by
  rw [FileMapper.indexFile] at h
  split at h
  · cases h
  · cases h
    rw [List.map_append, List.map_singleton]

theorem mapFiles_spec {files : List Data} {startByte : Nat} {done ranges : List FileRange}
    {mapper mapper' : FileMapper Path}
    (h : mapFiles fs files done.length startByte
      (done ++ List.replicate files.length ⟨0, 0⟩) mapper = .ok (ranges, mapper'))
    (hnonneg : ∀ length ∈ files.filterMap fileLength, 0 ≤ length)
    (hsum : startByte + (files.filterMap fileLength).sum < 2 ^ 64) :
    ranges = done ++ rangesFrom startByte ((files.filterMap fileLength).map Int.toNat) ∧
      mapper'.fileTable.map FileT.size =
        mapper.fileTable.map FileT.size ++ (files.filterMap fileLength).map Int.toNat := by
  induction files generalizing startByte done mapper with
  | nil =>
      cases h
      simp [rangesFrom]
  | cons file files ih =>
      rw [mapFiles] at h
      obtain ⟨fileMap, hmap, h₁⟩ := Except.bind_eq_ok.mp h
      obtain ⟨found, hfound, h₂⟩ := Except.bind_eq_ok.mp h₁
      obtain ⟨length, hlength, h₃⟩ := Except.bind_eq_ok.mp h₂
      obtain ⟨path, hpath, h₄⟩ := Except.bind_eq_ok.mp h₃
      obtain ⟨pathList, hpathList, h₅⟩ := Except.bind_eq_ok.mp h₄
      obtain ⟨names, hnames, h₆⟩ := Except.bind_eq_ok.mp h₅
      obtain ⟨mapper₁, hindex, h₇⟩ := Except.bind_eq_ok.mp h₆
      obtain ⟨p, rfl⟩ := Data.getAsDictionary_eq_ok.mp hmap
      obtain ⟨p', rfl⟩ := Data.getAsInteger_eq_ok.mp hlength
      have hfile : fileLength (.dictionary fileMap p) = some length.toInt := by
        rw [fileLength, dereference_eq_ok.mp hfound]
      rw [List.filterMap_cons_some hfile] at hnonneg hsum ⊢
      obtain ⟨hfirst, hrest⟩ := List.forall_mem_cons.mp hnonneg
      have hsums : 0 ≤ (files.filterMap fileLength).sum := List.sum_nonneg hrest
      rw [List.sum_cons] at hsum
      have hsize : SizeT.ofInt length.toInt = length.toInt.toNat :=
        SizeT.ofInt_of_nonneg hfirst (by omega)
      have hset : (done ++ List.replicate (files.length + 1) (⟨0, 0⟩ : FileRange)).set done.length
          ⟨startByte, length.toInt.toNat + startByte⟩ =
          (done ++ [⟨startByte, length.toInt.toNat + startByte⟩]) ++
            List.replicate files.length ⟨0, 0⟩ := by
        rw [List.replicate_succ, List.set_append_right _ _ (Nat.le_refl _), Nat.sub_self,
          List.set_cons_zero, List.append_assoc, List.singleton_append]
      rw [List.length_cons, hsize, SizeT.add_of_lt (by omega), SizeT.add_of_lt (by omega), hset] at h₇
      rw [hsize] at hindex
      have hdone : done.length + 1 =
          (done ++ [(⟨startByte, length.toInt.toNat + startByte⟩ : FileRange)]).length := by
        rw [List.length_append, List.length_singleton]
      rw [hdone] at h₇
      obtain ⟨hranges, htable⟩ := ih h₇ hrest (by omega)
      rw [List.map_cons, rangesFrom]
      refine ⟨?_, ?_⟩
      · rw [hranges, List.append_assoc, List.singleton_append]
      · rw [htable, indexFile_spec hindex, List.append_assoc, List.singleton_append]

end PieceMapper

/-! ### The whole torrent -/

open PieceMapper TorrentFile

variable {Path : Type} {fs : Filesystem Path}

theorem FileMapper.construct_fileTable {directory : Path} {torrent : TorrentFile}
    {mapper : FileMapper Path} (h : FileMapper.construct fs directory torrent = .ok mapper) :
    mapper.fileTable = [] := by
  rw [FileMapper.construct] at h
  split at h
  · cases h
  · obtain ⟨root, -, hroot⟩ := Except.bind_eq_ok.mp h
    split at hroot
    · cases hroot
      rfl
    · cases hroot

/-- The sizes an accepted torrent was given are those it declares. -/
theorem parseTranscription_sizes {transcibe : Dictionary} {hash : Digest} {torrent : TorrentFile}
    (h : parseTranscription (unparsed transcibe hash) = .ok (some torrent)) :
    torrent.downloadSize.toInt = torrent.declaredLengths.sum ∧
      (torrent.isFile = true → torrent.fileCount = 1 ∧
        torrent.declaredLengths = [torrent.downloadSize.toInt]) ∧
      (torrent.isFile = false → ∃ files, torrent.files = .ok (some files) ∧
        torrent.fileCount = files.length ∧ torrent.declaredLengths = files.filterMap fileLength) := by
  obtain ⟨info, measured, hinfo, hmeasured, hpieces⟩ := parseTranscription_spec h
  obtain ⟨hparsed, -⟩ := parsePieces_spec hpieces
  have hsize : torrent.downloadSize = measured.downloadSize := by rw [hparsed]
  have hfile : torrent.isFile = measured.isFile := by rw [hparsed]
  have hcount : torrent.fileCount = measured.fileCount := by rw [hparsed]
  have hmap : torrent.infoMap = .ok info := by
    rw [infoMap, (parseTranscription_frame h).1]
    exact hinfo
  have hlengths : torrent.declaredLengths = infoLengths info := by
    rw [declaredLengths, hmap]
  rw [hlengths, hsize, hfile, hcount]
  cases hmeasured with
  | single hlength =>
      rw [infoLengths, hlength]
      exact ⟨List.sum_singleton.symm, fun _ => ⟨rfl, rfl⟩, fun hmany => by cases hmany⟩
  | @multiple files p downloadSize hnone hfiles hadd =>
      rw [infoLengths, hnone, hfiles]
      have hsum := addFiles_spec hadd
      refine ⟨?_, (fun hsingle => by cases hsingle), fun _ => ⟨files, ?_, rfl, rfl⟩⟩
      · rw [hsum]
        exact Int.zero_add _
      · rw [TorrentFile.files, hfile, hmap]
        have hdereference := dereference_eq_ok.mpr hfiles
        simp only [Bool.false_eq_true, if_false, bind, Except.bind, hdereference, Data.getAsList]
        rfl

/-- The piece count is the download size over the piece length, rounded up. -/
theorem parseTranscription_count {torrent parsed : TorrentFile} {pieceLength : Int64}
    (h : parseTranscription torrent = .ok (some parsed))
    (hlength : parsed.getPieceLength = .ok pieceLength) :
    ceilDiv (SizeT.ofInt parsed.downloadSize.toInt) (SizeT.ofInt pieceLength.toInt) =
      .ok parsed.pieceCount := by
  obtain ⟨info, measured, -, -, hpieces⟩ := parseTranscription_spec h
  obtain ⟨hparsed, length, hmeasured, hcount⟩ := parsePieces_spec hpieces
  have hsize : parsed.downloadSize = measured.downloadSize := by rw [hparsed]
  have hsame : parsed.getPieceLength = measured.getPieceLength := by
    rw [hparsed]
    rfl
  obtain rfl := Except.ok.inj (hlength.symm.trans (hsame.trans hmeasured))
  rw [hsize, hcount]

/-- The mappers of an accepted torrent hold its files one after the other. -/
theorem construct_ranges {transcibe : Dictionary} {hash : Digest} {torrent : TorrentFile}
    (hparsed : parseTranscription (unparsed transcibe hash) = .ok (some torrent)) {directory : Path}
    {manager : FileManager Path} (hmanager : FileManager.construct fs directory torrent = .ok manager)
    (hnonneg : ∀ length ∈ torrent.declaredLengths, 0 ≤ length)
    (hsum : torrent.declaredLengths.sum < 2 ^ 63) :
    manager.pieceMap.fileRanges = rangesFrom 0 (torrent.declaredLengths.map Int.toNat) ∧
      manager.fileMap.fileTable.map FileT.size = torrent.declaredLengths.map Int.toNat ∧
      ∃ pieceLength, torrent.getPieceLength = .ok pieceLength ∧
        manager.pieceMap.pieceLength = SizeT.ofInt pieceLength.toInt := by
  obtain ⟨hsize, hsingle, hmultiple⟩ := parseTranscription_sizes hparsed
  obtain ⟨fileMap, hfileMap, h₁⟩ := Except.bind_eq_ok.mp hmanager
  obtain ⟨⟨pieceMap, fileMap'⟩, hpieceMap, h₂⟩ := Except.bind_eq_ok.mp h₁
  cases h₂
  have htable := FileMapper.construct_fileTable hfileMap
  rw [PieceMapper.construct] at hpieceMap
  obtain ⟨pieceLength, hlength, h₃⟩ := Except.bind_eq_ok.mp hpieceMap
  dsimp only at h₃ ⊢
  cases hfile : torrent.isFile with
  | true =>
      obtain ⟨hcount, hlengths⟩ := hsingle hfile
      rw [hfile, if_pos rfl] at h₃
      obtain ⟨name, -, h₄⟩ := Except.bind_eq_ok.mp h₃
      obtain ⟨mapper, hindex, h₅⟩ := Except.bind_eq_ok.mp h₄
      cases h₅
      rw [hlengths] at hnonneg ⊢
      have hdownload : SizeT.ofInt torrent.downloadSize.toInt = torrent.downloadSize.toInt.toNat :=
        SizeT.ofInt_of_nonneg (hnonneg _ List.mem_cons_self) (by omega)
      rw [hdownload] at hindex ⊢
      rw [hcount, indexFile_spec hindex, htable]
      exact ⟨rfl, rfl, pieceLength, hlength, rfl⟩
  | false =>
      obtain ⟨files, hfiles, hcount, hlengths⟩ := hmultiple hfile
      rw [hfile, if_neg (by decide)] at h₃
      obtain ⟨found, hfound, h₄⟩ := Except.bind_eq_ok.mp h₃
      obtain rfl := Except.ok.inj (hfiles.symm.trans hfound)
      obtain ⟨⟨ranges, mapper⟩, hmap, h₅⟩ := Except.bind_eq_ok.mp h₄
      cases h₅
      rw [hlengths] at hnonneg hsum ⊢
      rw [hcount] at hmap
      obtain ⟨hranges, htable'⟩ := @mapFiles_spec Path fs files 0 [] _ _ _ hmap hnonneg (by omega)
      rw [htable] at htable'
      exact ⟨hranges, htable', pieceLength, hlength, rfl⟩

/-- The sum of the lengths is the number of bytes in the row of all files. -/
theorem sum_toNat {lengths : List Int} (hnonneg : ∀ length ∈ lengths, 0 ≤ length) :
    ((lengths.map Int.toNat).sum : Int) = lengths.sum := by
  induction lengths with
  | nil => rfl
  | cons length lengths ih =>
      obtain ⟨hfirst, hrest⟩ := List.forall_mem_cons.mp hnonneg
      rw [List.map_cons, List.sum_cons, List.sum_cons, ← ih hrest]
      omega

/-- The numbers of an accepted torrent as the mappers hold them: the piece length and the sizes are
naturals that fit, and the pieces are as many as it takes to cover all bytes. -/
theorem accepted_layout {transcibe : Dictionary} {hash : Digest} {torrent : TorrentFile}
    (hparsed : parseTranscription (unparsed transcibe hash) = .ok (some torrent)) {directory : Path}
    {manager : FileManager Path} (hmanager : FileManager.construct fs directory torrent = .ok manager)
    {pieceLength : Int64} (hlength : torrent.getPieceLength = .ok pieceLength)
    (hpositive : 0 < pieceLength.toInt) (hnonneg : ∀ length ∈ torrent.declaredLengths, 0 ≤ length) :
    ∃ length : Nat, pieceLength.toInt = length ∧ 0 < length ∧ length < 2 ^ 63 ∧
      manager.pieceMap = ⟨length, rangesFrom 0 (torrent.declaredLengths.map Int.toNat)⟩ ∧
      (torrent.declaredLengths.map Int.toNat).sum < 2 ^ 63 ∧
      (torrent.declaredLengths.map Int.toNat).sum ≤ torrent.pieceCount * length ∧
      (0 < torrent.pieceCount →
        (torrent.pieceCount - 1) * length < (torrent.declaredLengths.map Int.toNat).sum) := by
  obtain ⟨hdownload, -, -⟩ := parseTranscription_sizes hparsed
  have htotal := sum_toNat hnonneg
  have hfits := torrent.downloadSize.toInt_lt
  obtain ⟨hranges, -, pieceLength', hlength', hpieceLength⟩ :=
    construct_ranges hparsed hmanager hnonneg (by omega)
  obtain rfl := Except.ok.inj (hlength.symm.trans hlength')
  have hcount := parseTranscription_count hparsed hlength
  have hlt := pieceLength.toInt_lt
  obtain ⟨length, hlengthNat⟩ := Int.eq_ofNat_of_zero_le hpositive.le
  rw [hdownload, ← htotal, SizeT.ofInt_of_nonneg (by omega) (by omega), Int.toNat_natCast,
    SizeT.ofInt_of_nonneg (by omega) (by omega), hlengthNat, Int.toNat_natCast] at hcount
  rw [SizeT.ofInt_of_nonneg (by omega) (by omega), hlengthNat, Int.toNat_natCast] at hpieceLength
  obtain ⟨hcover, hlast⟩ := ceilDiv_spec hcount
  refine ⟨length, hlengthNat, by omega, by omega, ?_, by omega, hcover, hlast⟩
  rw [← hranges, ← hpieceLength]

/-- The parts of files that `files_for` returns for the pieces of an accepted torrent, taken piece after
piece, are all bytes of all files in order; each lies within a file of the table; and every piece but the
last has the piece length. -/
theorem pieces_tile_files {transcibe : Dictionary} {hash : Digest} {torrent : TorrentFile}
    (hparsed : parseTranscription (unparsed transcibe hash) = .ok (some torrent)) {directory : Path}
    {manager : FileManager Path} (hmanager : FileManager.construct fs directory torrent = .ok manager)
    {pieceLength : Int64} (hlength : torrent.getPieceLength = .ok pieceLength)
    (hpositive : 0 < pieceLength.toInt) (hnonneg : ∀ length ∈ torrent.declaredLengths, 0 ≤ length)
    (hsum : torrent.declaredLengths.sum < 2 ^ 63) :
    manager.fileMap.fileTable.map FileT.size = torrent.declaredLengths.map Int.toNat ∧
      ((List.range torrent.pieceCount).flatMap fun i =>
          (manager.pieceMap.filesFor i).flatMap FilePiece.cells) =
        cellsFrom 0 (torrent.declaredLengths.map Int.toNat) ∧
      (∀ i < torrent.pieceCount, ∀ piece ∈ manager.pieceMap.filesFor i,
        ∃ file, manager.fileMap.fileTable[piece.file]? = some file ∧
          piece.offset + piece.size ≤ file.size) ∧
      (∀ i, i + 1 < torrent.pieceCount →
        (((manager.pieceMap.filesFor i).map FilePiece.size).sum : Int) = pieceLength.toInt) ∧
      (0 < torrent.pieceCount →
        (((manager.pieceMap.filesFor (torrent.pieceCount - 1)).map FilePiece.size).sum : Int) =
          torrent.downloadSize.toInt - (torrent.pieceCount - 1 : Nat) * pieceLength.toInt) := by
  obtain ⟨-, htable, -⟩ := construct_ranges hparsed hmanager hnonneg hsum
  obtain ⟨hdownload, -, -⟩ := parseTranscription_sizes hparsed
  have htotal := sum_toNat hnonneg
  obtain ⟨length, hlengthNat, hpos, hlt, hmapper, hsizes, hcover, hlast⟩ :=
    accepted_layout hparsed hmanager hlength hpositive hnonneg
  rw [hmapper, hdownload, ← htotal, hlengthNat]
  generalize torrent.declaredLengths.map Int.toNat = sizes at *
  have hmark : ∀ i < torrent.pieceCount, i * length < 2 ^ 64 := by
    intro i hi
    have hle : i * length ≤ (torrent.pieceCount - 1) * length :=
      Nat.mul_le_mul_right length (by omega)
    have := hlast (by omega)
    omega
  refine ⟨htable, ?_, ?_, ?_, ?_⟩
  · have hchunks : ((List.range torrent.pieceCount).flatMap fun i =>
        (filesFor ⟨length, rangesFrom 0 sizes⟩ i).flatMap FilePiece.cells) =
        (List.range torrent.pieceCount).flatMap fun i =>
          ((cellsFrom 0 sizes).drop (i * length)).take length :=
      List.flatMap_congr fun i hi => filesFor_cells (by omega) (by omega)
        (hmark i (List.mem_range.mp hi))
    rw [hchunks, flatMap_chunks, List.take_of_length_le]
    rwa [length_cellsFrom]
  · intro i hi piece hpiece
    obtain ⟨size, hsize, hwithin⟩ := filesFor_within (by omega) (by omega) hpiece
    rw [← htable, List.getElem?_map, Option.map_eq_some_iff] at hsize
    obtain ⟨file, hfile, rfl⟩ := hsize
    exact ⟨file, hfile, hwithin⟩
  · intro i hi
    have hle : (i + 1) * length ≤ (torrent.pieceCount - 1) * length :=
      Nat.mul_le_mul_right length (by omega)
    have := hlast (by omega)
    rw [filesFor_size (by omega) (by omega) (hmark i (by omega))]
    rw [Nat.add_mul, Nat.one_mul] at hle
    omega
  · intro hpos
    have hbefore := hlast hpos
    have hsplit : torrent.pieceCount * length = (torrent.pieceCount - 1) * length + length := by
      rw [← Nat.succ_mul, Nat.succ_eq_add_one, Nat.sub_add_cancel hpos]
    rw [filesFor_size (by omega) (by omega) (hmark _ (by omega)), Nat.min_eq_right (by omega),
      Nat.cast_sub hbefore.le, Nat.cast_mul]

/-! An album of three files, of 3, 0 and 2 bytes, in pieces of 2 bytes, on a disk without links. -/

def plainDisk : Filesystem (List ByteString) where
  weaklyCanonical := some
  append path name := path ++ [name]
  lexicallyNormal := id
  lexicallyRelative path root := path.drop root.length
  length path := (path.map fun name => name.size + 1).sum
  isEmpty path := path.isEmpty
  isDot _ := false
  startsWithDotDot _ := false
  isSymlink _ := some false
  createDirectories _ := true

def albumFile (name : String) (length : Int64) : Data :=
  .dictionary [(.ofString "length", .integer length ⟨0, 0⟩),
    (.ofString "path", .list [.string (.ofString name) ⟨0, 0⟩] ⟨0, 0⟩)] ⟨0, 0⟩

def albumTranscibe : Dictionary :=
  [(.ofString "info", .dictionary
    [(.ofString "files", .list [albumFile "a" 3, albumFile "b" 0, albumFile "c" 2] ⟨0, 0⟩),
      (.ofString "name", .string (.ofString "album") ⟨0, 0⟩),
      (.ofString "piece length", .integer 2 ⟨0, 0⟩),
      (.ofString "pieces", .string ⟨List.replicate 60 0, by decide⟩ ⟨0, 0⟩)] ⟨0, 0⟩)]

def album : TorrentFile :=
  ⟨albumTranscibe, .replicate 20 0, false, 5, 3, 3⟩

def albumManager : FileManager (List ByteString) :=
  ⟨⟨[.ofString "album"], [⟨false, -1, 3, [.ofString "album", .ofString "a"]⟩,
      ⟨false, -1, 0, [.ofString "album", .ofString "b"]⟩,
      ⟨false, -1, 2, [.ofString "album", .ofString "c"]⟩]⟩,
    ⟨2, [⟨0, 3⟩, ⟨3, 3⟩, ⟨3, 5⟩]⟩⟩

theorem pieces_tile_files_album :
    albumManager.fileMap.fileTable.map FileT.size = album.declaredLengths.map Int.toNat ∧
      ((List.range album.pieceCount).flatMap fun i =>
          (albumManager.pieceMap.filesFor i).flatMap FilePiece.cells) =
        cellsFrom 0 (album.declaredLengths.map Int.toNat) ∧
      (∀ i < album.pieceCount, ∀ piece ∈ albumManager.pieceMap.filesFor i,
        ∃ file, albumManager.fileMap.fileTable[piece.file]? = some file ∧
          piece.offset + piece.size ≤ file.size) ∧
      (∀ i, i + 1 < album.pieceCount →
        (((albumManager.pieceMap.filesFor i).map FilePiece.size).sum : Int) = (2 : Int64).toInt) ∧
      (0 < album.pieceCount →
        (((albumManager.pieceMap.filesFor (album.pieceCount - 1)).map FilePiece.size).sum : Int) =
          album.downloadSize.toInt - (album.pieceCount - 1 : Nat) * (2 : Int64).toInt) :=
  @pieces_tile_files (List ByteString) plainDisk albumTranscibe (.replicate 20 0) album rfl []
    albumManager rfl 2 rfl (by decide) (by decide) (by decide)

end TorrentEngine
