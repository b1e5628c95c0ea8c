import TorrentEngine.FileBytes

/-! `create_piece_map`, the mapper of the files before `piece_mapper_t`: one pass over the files that
fills a table with the parts of each piece. On every torrent of several files the rows of its table are
what `files_for` returns. -/

namespace TorrentEngine

open Bencode Tiling

/-- `piece_map_t`; a `file_range_t` has the fields of a `file_piece_t`. -/
abbrev PieceMap := List (List FilePiece)

namespace PieceMap

def resize (pieceMap : PieceMap) (count : Nat) : PieceMap :=
  pieceMap.take count ++ List.replicate (count - pieceMap.length) []

/-- `piece_map[current_piece].push_back(part)`, undefined past the end of the table. -/
def pushBack (pieceMap : PieceMap) (currentPiece : Nat) (part : FilePiece) : Except Fault PieceMap :=
  if currentPiece < pieceMap.length then .ok (pieceMap.modify currentPiece fun span => span ++ [part])
  else .error .undefined

/-- The variables of the loop over the files. -/
structure Pass where
  pieceMap : PieceMap
  currentPiece : Nat
  prevPieceRemainder : Nat
  fileByteOffset : Nat
  remainingSize : Nat

/-- The file ends the piece that the files before it began. -/
def endPrevious (fileIndex : Nat) (pass : Pass) : Except Fault Pass :=
  if pass.prevPieceRemainder ≠ 0 ∧ pass.remainingSize ≥ pass.prevPieceRemainder then do
    let part := ⟨fileIndex, pass.fileByteOffset, pass.prevPieceRemainder⟩
    let pieceMap ← pushBack pass.pieceMap pass.currentPiece part
    pure ⟨pieceMap, SizeT.inc pass.currentPiece, 0,
      SizeT.add pass.fileByteOffset pass.prevPieceRemainder,
      SizeT.sub pass.remainingSize pass.prevPieceRemainder⟩
  else pure pass

/-- The `while` loop over the pieces that are within the file. Each turn fills another row, so that one
turn more than there are rows never ends it. -/
def wholePieces (pieceLength fileIndex : Nat) : Nat → Pass → Except Fault Pass
  | 0, _ => .error .undefined
  | turns + 1, pass =>
      if pass.remainingSize ≥ pieceLength then do
        let part := ⟨fileIndex, pass.fileByteOffset, pieceLength⟩
        let pieceMap ← pushBack pass.pieceMap pass.currentPiece part
        wholePieces pieceLength fileIndex turns
          ⟨pieceMap, SizeT.inc pass.currentPiece, pass.prevPieceRemainder,
            SizeT.add pass.fileByteOffset pieceLength, SizeT.sub pass.remainingSize pieceLength⟩
      else pure pass

/-- What is left of the file begins a piece, or is within the one that was begun. -/
def startNext (pieceLength fileIndex : Nat) (pass : Pass) : Except Fault Pass :=
  if pass.remainingSize ≠ 0 then do
    let part := ⟨fileIndex, pass.fileByteOffset, pass.remainingSize⟩
    let pieceMap ← pushBack pass.pieceMap pass.currentPiece part
    let left := if pass.prevPieceRemainder ≠ 0 then pass.prevPieceRemainder else pieceLength
    pure { pass with pieceMap, prevPieceRemainder := SizeT.sub left pass.remainingSize }
  else pure pass

/-- One file of this size. -/
def mapFile (pieceLength fileIndex fileSize : Nat) (pass : Pass) : Except Fault Pass := do
  let pass := { pass with fileByteOffset := 0, remainingSize := fileSize }
  let pass ← endPrevious fileIndex pass
  let pass ← wholePieces pieceLength fileIndex (pass.pieceMap.length + 1) pass
  startNext pieceLength fileIndex pass

/-- The `for` loop over the files. -/
def mapFiles (pieceLength : Nat) : List Data → Nat → Pass → Except Fault Pass
  | [], _, pass => pure pass
  | file :: files, fileIndex, pass => do
      let fileMap ← file.getAsDictionary
      let length ← (← dereference "length" fileMap).getAsInteger
      let _filePath ← (← dereference "path" fileMap).getAsList
      let pass ← mapFile pieceLength fileIndex (SizeT.ofInt length.toInt) pass
      mapFiles pieceLength files (fileIndex + 1) pass

def createPieceMap (metainfo : TorrentFile) (pieceMap : PieceMap) : Except Fault PieceMap := do
  let pieceMap := resize pieceMap metainfo.pieceCount
  let pieceLength := SizeT.ofInt (← metainfo.getPieceLength).toInt
  if metainfo.isFile then
    pure (pieceMap.mapIdx fun pieceIdx span =>
      span ++ [⟨0, SizeT.mul pieceIdx pieceLength, pieceLength⟩])
  else
    match ← metainfo.files with
    | none => .error .undefined
    | some files => do
        let pass ← mapFiles pieceLength files 0 ⟨pieceMap, 0, 0, 0, 0⟩
        pure pass.pieceMap

/-! ### Rows and their bytes -/

/-- The parts come in the order of the files, and none of them is empty. -/
structure Ordered (span : List FilePiece) : Prop where
  increasing : span.Pairwise fun a b => a.file < b.file
  nonempty : ∀ part ∈ span, 0 < part.size

variable {span span' : List FilePiece} {part part' : FilePiece}

theorem Ordered.tail (h : Ordered (part :: span)) : Ordered span :=
  ⟨h.increasing.of_cons, fun part' hpart' => h.nonempty part' (List.mem_cons_of_mem _ hpart')⟩

theorem Ordered.append_part (h : Ordered span) (hbefore : ∀ part' ∈ span, part'.file < part.file)
    (hsize : 0 < part.size) : Ordered (span ++ [part]) := by
  constructor
  · rw [List.pairwise_append]
    refine ⟨h.increasing, List.pairwise_singleton _ _, fun part' hpart' last hlast => ?_⟩
    rw [List.mem_singleton] at hlast
    rw [hlast]
    exact hbefore part' hpart'
  · intro part' hpart'
    rcases List.mem_append.mp hpart' with hmem | hlast
    · exact h.nonempty part' hmem
    · rwa [List.mem_singleton.mp hlast]

/-- The bytes of the first part are those in its file. -/
theorem Ordered.filter_cells (h : Ordered (part :: span)) :
    ((part :: span).flatMap FilePiece.cells).filter (fun cell => cell.1 == part.file) =
      part.cells := by
  have hfirst : part.cells.filter (fun cell => cell.1 == part.file) = part.cells := by
    rw [List.filter_eq_self]
    intro cell hcell
    rw [fst_of_mem_fragment hcell, beq_self_eq_true]
  have hrest : (span.flatMap FilePiece.cells).filter (fun cell => cell.1 == part.file) = [] := by
    rw [List.filter_eq_nil_iff]
    intro cell hcell
    obtain ⟨part', hpart', hin⟩ := List.mem_flatMap.mp hcell
    have hlt := List.rel_of_pairwise_cons h.increasing hpart'
    rw [fst_of_mem_fragment hin, beq_iff_eq]
    exact Nat.ne_of_gt hlt
  rw [List.flatMap_cons, List.filter_append, hfirst, hrest, List.append_nil]

theorem head?_cells (hsize : 0 < part.size) (rest : List (Nat × Nat)) :
    (part.cells ++ rest).head? = some (part.file, part.offset) := by
  obtain ⟨n, hn⟩ := Nat.exists_eq_succ_of_ne_zero hsize.ne'
  rw [FilePiece.cells, hn]
  rfl

/-- A row is known by its bytes. -/
theorem Ordered.eq_of_cells (h : Ordered span) (h' : Ordered span')
    (hcells : span.flatMap FilePiece.cells = span'.flatMap FilePiece.cells) : span = span' := by
  induction span generalizing span' with
  | nil => exact (PieceMapper.eq_nil_of_cells h'.nonempty hcells.symm).symm
  | cons part span ih =>
      cases span' with
      | nil => exact PieceMapper.eq_nil_of_cells h.nonempty hcells
      | cons part' span' =>
          have hhead := congrArg List.head? hcells
          rw [List.flatMap_cons, List.flatMap_cons, head?_cells (h.nonempty part List.mem_cons_self),
            head?_cells (h'.nonempty part' List.mem_cons_self), Option.some.injEq,
            Prod.mk.injEq] at hhead
          obtain ⟨hfile, hoffset⟩ := hhead
          have hfirst : part.cells = part'.cells := by
            rw [← h.filter_cells, hcells, hfile, h'.filter_cells]
          have hsize := congrArg List.length hfirst
          rw [FilePiece.cells, length_fragment, FilePiece.cells, length_fragment] at hsize
          rw [List.flatMap_cons, List.flatMap_cons, hfirst] at hcells
          rw [ih h.tail h'.tail (List.append_cancel_left hcells)]
          congr 1
          cases part
          cases part'
          simp_all

/-! ### The pass -/

/-- The rows hold the bytes so far, each its chunk of them. -/
structure Fills (length : Nat) (cells : List (Nat × Nat)) (pieceMap : PieceMap) : Prop where
  chunk : ∀ (i : Nat) span, pieceMap[i]? = some span →
    span.flatMap FilePiece.cells = (cells.drop (i * length)).take length
  ordered : ∀ (i : Nat) span, pieceMap[i]? = some span → Ordered span

variable {length : Nat} {cells : List (Nat × Nat)} {pieceMap : PieceMap}

theorem Fills.row_nil (h : Fills length cells pieceMap) {i : Nat} (hpast : cells.length ≤ i * length)
    (hspan : pieceMap[i]? = some span) : span = [] := by
  have hcells := h.chunk i span hspan
  rw [chunk_of_le hpast] at hcells
  exact PieceMapper.eq_nil_of_cells (h.ordered i span hspan).nonempty hcells

/-- A part of a later file, appended to the row the bytes end in. -/
theorem Fills.pushBack (h : Fills length cells pieceMap) {currentPiece : Nat}
    (hcurrent : currentPiece < pieceMap.length) (hsize : 0 < part.size)
    (hstart : currentPiece * length ≤ cells.length)
    (hend : cells.length + part.size ≤ (currentPiece + 1) * length)
    (hbefore : ∀ span, pieceMap[currentPiece]? = some span → ∀ part' ∈ span, part'.file < part.file) :
    ∃ pieceMap', PieceMap.pushBack pieceMap currentPiece part = .ok pieceMap' ∧
      pieceMap'.length = pieceMap.length ∧ Fills length (cells ++ part.cells) pieceMap' ∧
      ∀ span, pieceMap'[currentPiece]? = some span → ∀ part' ∈ span, part'.file ≤ part.file := by
  have hbytes : part.cells.length = part.size := length_fragment _ _ _
  have hrow := List.getElem?_eq_getElem hcurrent
  have hpushed : (pieceMap.modify currentPiece fun span => span ++ [part])[currentPiece]? =
      some (pieceMap[currentPiece] ++ [part]) := by
    simp [hrow]
  refine ⟨_, if_pos hcurrent, List.length_modify _ _ _, ⟨?_, ?_⟩, ?_⟩
  · intro i span hspan
    rcases Nat.lt_trichotomy i currentPiece with hlt | rfl | hgt
    · rw [List.getElem?_modify_ne _ _ hlt.ne'] at hspan
      have hle : (i + 1) * length ≤ currentPiece * length := Nat.mul_le_mul_right length hlt
      rw [chunk_append_of_le (hle.trans hstart)]
      exact h.chunk i span hspan
    · rw [hpushed, Option.some.injEq] at hspan
      rw [← hspan, List.flatMap_append, List.flatMap_singleton, h.chunk i _ hrow,
        chunk_append hstart (by rwa [hbytes])]
    · rw [List.getElem?_modify_ne _ _ hgt.ne] at hspan
      have hle : (currentPiece + 1) * length ≤ i * length := Nat.mul_le_mul_right length hgt
      rw [chunk_of_le (by rw [List.length_append, hbytes]; exact hend.trans hle),
        h.row_nil (by omega) hspan, List.flatMap_nil]
  · intro i span hspan
    by_cases heq : currentPiece = i
    · subst heq
      rw [hpushed, Option.some.injEq] at hspan
      rw [← hspan]
      exact (h.ordered _ _ hrow).append_part (hbefore _ hrow) hsize
    · rw [List.getElem?_modify_ne _ _ heq] at hspan
      exact h.ordered i span hspan
  · intro span hspan part' hpart'
    rw [hpushed, Option.some.injEq] at hspan
    rw [← hspan] at hpart'
    rcases List.mem_append.mp hpart' with hmem | hlast
    · exact (hbefore _ hrow part' hmem).le
    · rw [List.mem_singleton.mp hlast]

/-- Where the next byte goes: to the start of a row, or into a row with this much left of it. -/
def Place (length written currentPiece remainder : Nat) : Prop :=
  remainder = 0 ∧ written = currentPiece * length ∨
    0 < remainder ∧ remainder < length ∧ written + remainder = (currentPiece + 1) * length

theorem Place.start_le {written currentPiece remainder : Nat}
    (h : Place length written currentPiece remainder) : currentPiece * length ≤ written := by
  rcases h with ⟨-, hwritten⟩ | ⟨-, hlt, hend⟩
  · exact hwritten.ge
  · rw [Nat.succ_mul] at hend
    omega

/-- The pass within a file, of which `fileByteOffset` bytes are in the table. -/
structure InFile (length rows : Nat) (before : List (Nat × Nat)) (fileIndex fileSize : Nat)
    (pass : Pass) : Prop where
  rows : pass.pieceMap.length = rows
  fills : Fills length (before ++ fragment fileIndex 0 pass.fileByteOffset) pass.pieceMap
  place : Place length (before.length + pass.fileByteOffset) pass.currentPiece
    pass.prevPieceRemainder
  earlier : ∀ span, pass.pieceMap[pass.currentPiece]? = some span →
    ∀ part ∈ span, part.file < fileIndex
  split : pass.fileByteOffset + pass.remainingSize = fileSize

/-- The pass before a file: the bytes of the files before it are in the table. -/
structure BeforeFile (length rows : Nat) (cells : List (Nat × Nat)) (fileIndex : Nat) (pass : Pass) :
    Prop where
  rows : pass.pieceMap.length = rows
  fills : Fills length cells pass.pieceMap
  place : Place length cells.length pass.currentPiece pass.prevPieceRemainder
  earlier : ∀ span, pass.pieceMap[pass.currentPiece]? = some span →
    ∀ part ∈ span, part.file < fileIndex

namespace InFile

variable {rows fileIndex fileSize : Nat} {before : List (Nat × Nat)} {pass : Pass}

theorem length_written (before : List (Nat × Nat)) (fileIndex offset : Nat) :
    (before ++ fragment fileIndex 0 offset).length = before.length + offset := by
  rw [List.length_append, length_fragment]

/-- While bytes are left there is a row for them. -/
theorem currentPiece_lt (h : InFile length rows before fileIndex fileSize pass)
    (hroom : before.length + fileSize ≤ rows * length) (hleft : 0 < pass.remainingSize) :
    pass.currentPiece < rows := by
  have hstart := h.place.start_le
  have hsplit := h.split
  apply @Nat.lt_of_mul_lt_mul_right length
  omega

/-- The next bytes of the file go into the row the pass stands at. -/
theorem pushBack (h : InFile length rows before fileIndex fileSize pass)
    (hroom : before.length + fileSize ≤ rows * length) {size : Nat} (hsize : 0 < size)
    (hleft : size ≤ pass.remainingSize)
    (hend : before.length + pass.fileByteOffset + size ≤ (pass.currentPiece + 1) * length) :
    ∃ pieceMap, PieceMap.pushBack pass.pieceMap pass.currentPiece
        ⟨fileIndex, pass.fileByteOffset, size⟩ = .ok pieceMap ∧ pieceMap.length = rows ∧
      Fills length (before ++ fragment fileIndex 0 (pass.fileByteOffset + size)) pieceMap ∧
      ∀ span, pieceMap[pass.currentPiece]? = some span → ∀ part ∈ span, part.file ≤ fileIndex := by
  have hcurrent : pass.currentPiece < pass.pieceMap.length := by
    rw [h.rows]
    exact h.currentPiece_lt hroom (by omega)
  have hwritten := length_written before fileIndex pass.fileByteOffset
  obtain ⟨pieceMap, hpush, hrows, hfills, hfiles⟩ :=
    @Fills.pushBack ⟨fileIndex, pass.fileByteOffset, size⟩ _ _ _ h.fills _ hcurrent hsize
      (by rw [hwritten]; exact h.place.start_le) (by rwa [hwritten]) h.earlier
  refine ⟨pieceMap, hpush, hrows.trans h.rows, ?_, hfiles⟩
  have hjoin := fragment_append fileIndex 0 pass.fileByteOffset size
  rw [Nat.zero_add] at hjoin
  rwa [← hjoin, ← List.append_assoc]

/-- The next bytes of the file complete the row: the pass moves on to the next one. -/
theorem completes (h : InFile length rows before fileIndex fileSize pass) (hrows : rows < 2 ^ 64)
    (hfits : fileSize < 2 ^ 64) (hroom : before.length + fileSize ≤ rows * length) {size : Nat}
    (hsize : 0 < size) (hleft : size ≤ pass.remainingSize)
    (hend : before.length + pass.fileByteOffset + size = (pass.currentPiece + 1) * length) :
    ∃ pieceMap, PieceMap.pushBack pass.pieceMap pass.currentPiece
        ⟨fileIndex, pass.fileByteOffset, size⟩ = .ok pieceMap ∧
      SizeT.sub pass.remainingSize size = pass.remainingSize - size ∧
      SizeT.inc pass.currentPiece = pass.currentPiece + 1 ∧
      InFile length rows before fileIndex fileSize
        ⟨pieceMap, SizeT.inc pass.currentPiece, 0, SizeT.add pass.fileByteOffset size,
          SizeT.sub pass.remainingSize size⟩ := by
  obtain ⟨pieceMap, hpush, hcount, hfills, -⟩ := h.pushBack hroom hsize hleft hend.le
  have hcurrent := h.currentPiece_lt hroom (by omega)
  have hsplit := h.split
  have hadd : SizeT.add pass.fileByteOffset size = pass.fileByteOffset + size :=
    SizeT.add_of_lt (by omega)
  have hsub : SizeT.sub pass.remainingSize size = pass.remainingSize - size :=
    SizeT.sub_of_le hleft (by omega)
  have hinc : SizeT.inc pass.currentPiece = pass.currentPiece + 1 := SizeT.inc_of_lt (by omega)
  refine ⟨pieceMap, hpush, hsub, hinc, ?_⟩
  rw [hadd, hsub, hinc]
  refine ⟨hcount, hfills, .inl ⟨rfl, ?_⟩, ?_, ?_⟩
  · rw [← hend, Nat.add_assoc]
  · intro span hspan part hpart
    rw [hfills.row_nil ?_ hspan] at hpart
    · exact absurd hpart List.not_mem_nil
    · rw [length_written, ← hend, Nat.add_assoc]
  · dsimp only
    omega

/-- After the first `if` no row is open, or all of the file is within the open row. -/
theorem endPrevious_ok (h : InFile length rows before fileIndex fileSize pass) (hrows : rows < 2 ^ 64)
    (hfits : fileSize < 2 ^ 64) (hroom : before.length + fileSize ≤ rows * length) :
    ∃ pass', endPrevious fileIndex pass = .ok pass' ∧
      InFile length rows before fileIndex fileSize pass' ∧
      (pass'.prevPieceRemainder = 0 ∨ pass'.remainingSize < pass'.prevPieceRemainder) := by
  rw [endPrevious]
  split
  · rename_i hcond
    have hend : before.length + pass.fileByteOffset + pass.prevPieceRemainder =
        (pass.currentPiece + 1) * length := by
      rcases h.place with ⟨hzero, -⟩ | ⟨-, -, hend⟩
      · exact absurd hzero hcond.1
      · exact hend
    obtain ⟨pieceMap, hpush, -, -, hnext⟩ :=
      h.completes hrows hfits hroom (Nat.pos_of_ne_zero hcond.1) hcond.2 hend
    exact ⟨_, Except.bind_eq_ok.mpr ⟨pieceMap, hpush, rfl⟩, hnext, .inl rfl⟩
  · exact ⟨pass, rfl, h, by omega⟩

/-- The `while` loop leaves less than a piece of the file. -/
theorem wholePieces_ok (hlength : 0 < length) (hrows : rows < 2 ^ 64) (hfits : fileSize < 2 ^ 64)
    (hroom : before.length + fileSize ≤ rows * length) {turns : Nat}
    (h : InFile length rows before fileIndex fileSize pass)
    (hopen : pass.prevPieceRemainder = 0 ∨ pass.remainingSize < pass.prevPieceRemainder)
    (hturns : rows < pass.currentPiece + turns) :
    ∃ pass', wholePieces length fileIndex turns pass = .ok pass' ∧
      InFile length rows before fileIndex fileSize pass' ∧ pass'.remainingSize < length ∧
      (pass'.prevPieceRemainder = 0 ∨ pass'.remainingSize < pass'.prevPieceRemainder) := by
  induction turns generalizing pass with
  | zero =>
      have hstart := h.place.start_le
      have hsplit := h.split
      have hle : pass.currentPiece ≤ rows :=
        Nat.le_of_mul_le_mul_right (show pass.currentPiece * length ≤ rows * length by omega) hlength
      omega
  | succ turns ih =>
      rw [wholePieces]
      split
      · rename_i hwhole
        have hplace : pass.prevPieceRemainder = 0 ∧
            before.length + pass.fileByteOffset = pass.currentPiece * length := by
          rcases h.place with hzero | ⟨hpos, hlt, -⟩
          · exact hzero
          · omega
        have hend : before.length + pass.fileByteOffset + length =
            (pass.currentPiece + 1) * length := by
          rw [hplace.2, Nat.succ_mul]
        obtain ⟨pieceMap, hpush, -, hinc, hnext⟩ :=
          h.completes hrows hfits hroom hlength hwhole hend
        obtain ⟨pass', hloop, hafter⟩ := ih hnext (.inl rfl) (by dsimp only; omega)
        refine ⟨pass', Except.bind_eq_ok.mpr ⟨pieceMap, hpush, ?_⟩, hafter⟩
        rwa [hplace.1]
      · exact ⟨pass, rfl, h, by omega, hopen⟩

/-- The second `if` takes the rest of the file into the row that is open then. -/
theorem startNext_ok (h : InFile length rows before fileIndex fileSize pass)
    (hlengthFits : length < 2 ^ 64) (hroom : before.length + fileSize ≤ rows * length)
    (hshort : pass.remainingSize < length)
    (hopen : pass.prevPieceRemainder = 0 ∨ pass.remainingSize < pass.prevPieceRemainder) :
    ∃ pass', startNext length fileIndex pass = .ok pass' ∧
      BeforeFile length rows (before ++ fragment fileIndex 0 fileSize) (fileIndex + 1) pass' := by
  have hsplit := h.split
  have hwritten := length_written before fileIndex fileSize
  rw [startNext]
  split
  · rename_i hleft
    have hplace := h.place
    have hnext : before.length + pass.fileByteOffset + (if pass.prevPieceRemainder ≠ 0 then
        pass.prevPieceRemainder else length) = (pass.currentPiece + 1) * length := by
      rcases hplace with ⟨hzero, hwritten⟩ | ⟨hpos, -, hend⟩
      · rw [if_neg (not_not.mpr hzero), hwritten, Nat.succ_mul]
      · rwa [if_pos hpos.ne']
    have hless : pass.remainingSize < (if pass.prevPieceRemainder ≠ 0 then
        pass.prevPieceRemainder else length) ∧ (if pass.prevPieceRemainder ≠ 0 then
        pass.prevPieceRemainder else length) ≤ length := by
      rcases hplace with ⟨hzero, -⟩ | ⟨hpos, hlt, -⟩
      · rw [if_neg (not_not.mpr hzero)]
        exact ⟨hshort, le_rfl⟩
      · rw [if_pos hpos.ne']
        exact ⟨hopen.resolve_left hpos.ne', hlt.le⟩
    generalize (if pass.prevPieceRemainder ≠ 0 then pass.prevPieceRemainder else length) = left at *
    obtain ⟨pieceMap, hpush, hcount, hfills, hfiles⟩ :=
      h.pushBack hroom (Nat.pos_of_ne_zero hleft) le_rfl (by omega)
    rw [hsplit] at hfills
    refine ⟨_, Except.bind_eq_ok.mpr ⟨pieceMap, hpush, rfl⟩, ⟨hcount, hfills, .inr ?_, ?_⟩⟩
    · dsimp only
      rw [SizeT.sub_of_le hless.1.le (by omega), hwritten]
      omega
    · intro span hspan part hpart
      exact Nat.lt_succ_of_le (hfiles span hspan part hpart)
  · rename_i hzero
    have hall : pass.fileByteOffset = fileSize := by omega
    refine ⟨pass, rfl, ⟨h.rows, ?_, ?_, ?_⟩⟩
    · rw [← hall]
      exact h.fills
    · rw [hwritten, ← hall]
      exact h.place
    · intro span hspan part hpart
      exact Nat.lt_succ_of_lt (h.earlier span hspan part hpart)

end InFile

namespace BeforeFile

variable {rows fileIndex : Nat} {pass : Pass}

/-- One file adds its bytes. -/
theorem mapFile_ok (h : BeforeFile length rows cells fileIndex pass) (hlength : 0 < length)
    (hlengthFits : length < 2 ^ 64) (hrows : rows < 2 ^ 64) {fileSize : Nat} (hfits : fileSize < 2 ^ 64)
    (hroom : cells.length + fileSize ≤ rows * length) :
    ∃ pass', mapFile length fileIndex fileSize pass = .ok pass' ∧
      BeforeFile length rows (cells ++ fragment fileIndex 0 fileSize) (fileIndex + 1) pass' := by
  have hfirst : InFile length rows cells fileIndex fileSize
      { pass with fileByteOffset := 0, remainingSize := fileSize } := by
    refine ⟨h.rows, ?_, h.place, h.earlier, Nat.zero_add _⟩
    rw [fragment_zero, List.append_nil]
    exact h.fills
  obtain ⟨pass₁, hended, h₁, hopen₁⟩ := hfirst.endPrevious_ok hrows hfits hroom
  obtain ⟨pass₂, hwhole, h₂, hshort, hopen₂⟩ :=
    @InFile.wholePieces_ok _ _ _ _ _ _ hlength hrows hfits hroom (pass₁.pieceMap.length + 1) h₁ hopen₁
      (by rw [h₁.rows]; omega)
  obtain ⟨pass₃, hstarted, h₃⟩ := h₂.startNext_ok hlengthFits hroom hshort hopen₂
  refine ⟨pass₃, ?_, h₃⟩
  rw [mapFile]
  exact Except.bind_eq_ok.mpr ⟨pass₁, hended, Except.bind_eq_ok.mpr ⟨pass₂, hwhole, hstarted⟩⟩

end BeforeFile

/-- A file entry that both mappers can read. -/
def Readable (file : Data) : Prop :=
  ∃ fileMap foundLength length foundPath path, file.getAsDictionary = .ok fileMap ∧
    dereference "length" fileMap = .ok foundLength ∧ foundLength.getAsInteger = .ok length ∧
    dereference "path" fileMap = .ok foundPath ∧ foundPath.getAsList = .ok path ∧
    fileLength file = some length.toInt

/-- The piece mapper reads every entry. -/
theorem readable_of_mapFiles {Path : Type} {fs : Filesystem Path} {files : List Data}
    {fileIndex startByte : Nat} {ranges : List FileRange} {mapper : FileMapper Path}
    {mapped : List FileRange × FileMapper Path}
    (h : PieceMapper.mapFiles fs files fileIndex startByte ranges mapper = .ok mapped) :
    ∀ file ∈ files, Readable file := by
  induction files generalizing fileIndex startByte ranges mapper with
  | nil => exact fun file hfile => absurd hfile List.not_mem_nil
  | cons file files ih =>
      rw [PieceMapper.mapFiles] at h
      obtain ⟨fileMap, hmap, h₁⟩ := Except.bind_eq_ok.mp h
      obtain ⟨foundLength, hfoundLength, h₂⟩ := Except.bind_eq_ok.mp h₁
      obtain ⟨length, hlength, h₃⟩ := Except.bind_eq_ok.mp h₂
      obtain ⟨foundPath, hfoundPath, h₄⟩ := Except.bind_eq_ok.mp h₃
      obtain ⟨path, hpath, h₅⟩ := Except.bind_eq_ok.mp h₄
      obtain ⟨names, -, h₆⟩ := Except.bind_eq_ok.mp h₅
      obtain ⟨mapper', -, hrest⟩ := Except.bind_eq_ok.mp h₆
      have hfile : fileLength file = some length.toInt := by
        obtain ⟨p, rfl⟩ := Data.getAsDictionary_eq_ok.mp hmap
        obtain ⟨p', rfl⟩ := Data.getAsInteger_eq_ok.mp hlength
        rw [fileLength, dereference_eq_ok.mp hfoundLength]
      rw [List.forall_mem_cons]
      exact ⟨⟨fileMap, foundLength, length, foundPath, path, hmap, hfoundLength, hlength, hfoundPath,
        hpath, hfile⟩, ih hrest⟩

/-- All files together fill the rows with all bytes. -/
theorem BeforeFile.mapFiles_ok {rows fileIndex : Nat} {pass : Pass}
    (h : BeforeFile length rows cells fileIndex pass) (hlength : 0 < length)
    (hlengthFits : length < 2 ^ 64) (hrows : rows < 2 ^ 64) {files : List Data}
    (hreadable : ∀ file ∈ files, Readable file)
    (hnonneg : ∀ length ∈ files.filterMap fileLength, 0 ≤ length)
    (hroom : cells.length + ((files.filterMap fileLength).map Int.toNat).sum ≤ rows * length) :
    ∃ pass', mapFiles length files fileIndex pass = .ok pass' ∧ pass'.pieceMap.length = rows ∧
      Fills length (cells ++ cellsFrom fileIndex ((files.filterMap fileLength).map Int.toNat))
        pass'.pieceMap := by
  induction files generalizing fileIndex pass cells with
  | nil =>
      refine ⟨pass, rfl, h.rows, ?_⟩
      rw [List.filterMap_nil, List.map_nil, cellsFrom, List.append_nil]
      exact h.fills
  | cons file files ih =>
      obtain ⟨hfirst, hothers⟩ := List.forall_mem_cons.mp hreadable
      obtain ⟨fileMap, foundLength, fileSize, foundPath, path, hmap, hfoundLength, hsize, hfoundPath,
        hpath, hfile⟩ := hfirst
      rw [List.filterMap_cons_some hfile] at hnonneg hroom ⊢
      obtain ⟨hpositive, hrest⟩ := List.forall_mem_cons.mp hnonneg
      rw [List.map_cons, List.sum_cons] at hroom
      have hlt := fileSize.toInt_lt
      have hofInt : SizeT.ofInt fileSize.toInt = fileSize.toInt.toNat :=
        SizeT.ofInt_of_nonneg hpositive (by omega)
      obtain ⟨pass₁, hpass₁, h₁⟩ := @BeforeFile.mapFile_ok _ _ _ _ _ h hlength hlengthFits hrows
        fileSize.toInt.toNat (by omega) (by omega)
      obtain ⟨pass₂, hpass₂, hrows₂, hfills₂⟩ := ih h₁ hothers hrest (by
        rw [List.length_append, length_fragment]
        omega)
      refine ⟨pass₂, ?_, hrows₂, ?_⟩
      · rw [mapFiles, hmap]
        refine Except.bind_eq_ok.mpr ⟨_, rfl, Except.bind_eq_ok.mpr ⟨_, hfoundLength, ?_⟩⟩
        refine Except.bind_eq_ok.mpr ⟨_, hsize, Except.bind_eq_ok.mpr ⟨_, hfoundPath, ?_⟩⟩
        refine Except.bind_eq_ok.mpr ⟨_, hpath, Except.bind_eq_ok.mpr ⟨pass₁, ?_, hpass₂⟩⟩
        rw [hofInt, hpass₁]
      · rwa [List.map_cons, cellsFrom, ← List.append_assoc]

/-- Before the first file every row is empty. -/
theorem beforeFile_replicate (length rows : Nat) :
    BeforeFile length rows [] 0 ⟨List.replicate rows [], 0, 0, 0, 0⟩ := by
  have hnil : ∀ (i : Nat) span, (List.replicate rows ([] : List FilePiece))[i]? = some span →
      span = [] := fun i span hspan => List.eq_of_mem_replicate (List.mem_of_getElem? hspan)
  refine ⟨List.length_replicate, ⟨?_, ?_⟩, .inl ⟨rfl, (Nat.zero_mul _).symm⟩, ?_⟩
  · intro i span hspan
    rw [hnil i span hspan, List.drop_nil, List.take_nil, List.flatMap_nil]
  · intro i span hspan
    rw [hnil i span hspan]
    exact ⟨.nil, fun part hpart => absurd hpart List.not_mem_nil⟩
  · intro span hspan part hpart
    rw [hnil 0 span hspan] at hpart
    exact absurd hpart List.not_mem_nil

/-- The rows that hold the bytes of the files are those that `files_for` returns. -/
theorem Fills.eq_filesFor {sizes : List Nat} (h : Fills length (cellsFrom 0 sizes) pieceMap)
    (hlength : length < 2 ^ 64) (hsum : sizes.sum < 2 ^ 64)
    (hmark : ∀ i < pieceMap.length, i * length < 2 ^ 64) :
    pieceMap = (List.range pieceMap.length).map
      (PieceMapper.filesFor ⟨length, rangesFrom 0 sizes⟩) := by
  apply List.ext_getElem
  · rw [List.length_map, List.length_range]
  · intro i hi hi'
    have hspan := List.getElem?_eq_getElem hi
    obtain ⟨hincreasing, hnonempty⟩ := @PieceMapper.filesFor_increasing length i sizes hsum hlength
    rw [List.getElem_map, List.getElem_range]
    apply (h.ordered i _ hspan).eq_of_cells ⟨hincreasing, hnonempty⟩
    rw [h.chunk i _ hspan, PieceMapper.filesFor_cells hsum hlength (hmark i hi)]

end PieceMap

/-! ### Both mappers -/

open PieceMap TorrentFile

variable {Path : Type} {fs : Filesystem Path}

/-- The constructed manager has read every file of a torrent of several files. -/
theorem readable_of_construct {directory : Path} {torrent : TorrentFile} {manager : FileManager Path}
    (hmanager : FileManager.construct fs directory torrent = .ok manager)
    (hmultiple : torrent.isFile = false) {files : List Data} (hfiles : torrent.files = .ok (some files)) :
    ∀ file ∈ files, Readable file := by
  obtain ⟨fileMap, -, h₁⟩ := Except.bind_eq_ok.mp hmanager
  obtain ⟨mapped, hmapped, -⟩ := Except.bind_eq_ok.mp h₁
  rw [PieceMapper.construct] at hmapped
  obtain ⟨pieceLength, -, h₂⟩ := Except.bind_eq_ok.mp hmapped
  rw [hmultiple, if_neg Bool.false_ne_true] at h₂
  obtain ⟨found, hfound, h₃⟩ := Except.bind_eq_ok.mp h₂
  obtain rfl := Except.ok.inj (hfiles.symm.trans hfound)
  obtain ⟨ranges, hranges, -⟩ := Except.bind_eq_ok.mp h₃
  exact readable_of_mapFiles hranges

/-- The table that the old mapper builds for an accepted torrent of several files has one row a piece,
and each row is what `files_for` returns for the piece. -/
theorem createPieceMap_eq {transcibe : Dictionary} {hash : Digest} {torrent : TorrentFile}
    (hparsed : parseTranscription (unparsed transcibe hash) = .ok (some torrent)) {directory : Path}
    {manager : FileManager Path} (hmanager : FileManager.construct fs directory torrent = .ok manager)
    {pieceLength : Int64} (hlength : torrent.getPieceLength = .ok pieceLength)
    (hpositive : 0 < pieceLength.toInt) (hnonneg : ∀ length ∈ torrent.declaredLengths, 0 ≤ length)
    (hmultiple : torrent.isFile = false) :
    createPieceMap torrent [] =
      .ok ((List.range torrent.pieceCount).map fun i => manager.pieceMap.filesFor i) := by
  obtain ⟨length, hnat, hpos, hlt, hmapper, hsizes, hcover, hlast⟩ :=
    accepted_layout hparsed hmanager hlength hpositive hnonneg
  obtain ⟨-, -, hmany⟩ := parseTranscription_sizes hparsed
  obtain ⟨files, hfiles, -, hlengths⟩ := hmany hmultiple
  have hreadable := readable_of_construct hmanager hmultiple hfiles
  have hofInt : SizeT.ofInt pieceLength.toInt = length := by
    rw [SizeT.ofInt_of_nonneg (by omega) (by omega), hnat, Int.toNat_natCast]
  have hrows : torrent.pieceCount < 2 ^ 64 := by
    rcases Nat.eq_zero_or_pos torrent.pieceCount with hzero | hcount
    · omega
    · have := Nat.le_mul_of_pos_right (torrent.pieceCount - 1) hpos
      have := hlast hcount
      omega
  have hempty : resize [] torrent.pieceCount = List.replicate torrent.pieceCount [] := by
    rw [resize, List.take_nil, List.nil_append, List.length_nil, Nat.sub_zero]
  rw [hlengths] at hnonneg hcover hmapper hsizes hlast
  obtain ⟨pass, hpass, hcount, hfills⟩ := (beforeFile_replicate length torrent.pieceCount).mapFiles_ok hpos
    (by omega) hrows hreadable hnonneg (by rwa [List.length_nil, Nat.zero_add])
  rw [List.nil_append] at hfills
  have hrow : pass.pieceMap = (List.range torrent.pieceCount).map manager.pieceMap.filesFor := by
    rw [hmapper, ← hcount]
    apply hfills.eq_filesFor (by omega) (by omega)
    intro i hi
    have hle : i * length ≤ (torrent.pieceCount - 1) * length :=
      Nat.mul_le_mul_right length (by omega)
    have := hlast (by omega)
    omega
  rw [createPieceMap, hempty, hlength]
  refine Except.bind_eq_ok.mpr ⟨pieceLength, rfl, ?_⟩
  rw [hmultiple, if_neg Bool.false_ne_true, hofInt]
  refine Except.bind_eq_ok.mpr ⟨some files, hfiles, Except.bind_eq_ok.mpr ⟨pass, hpass, ?_⟩⟩
  rw [hrow]
  rfl

/-- The album, whose second piece is the last byte of its first file and the first of its third. -/
theorem createPieceMap_eq_album :
    createPieceMap album [] = .ok [[⟨0, 0, 2⟩], [⟨0, 2, 1⟩, ⟨2, 0, 1⟩], [⟨2, 1, 1⟩]] ∧
      createPieceMap album [] =
        .ok ((List.range album.pieceCount).map fun i => albumManager.pieceMap.filesFor i) :=
  ⟨rfl, @createPieceMap_eq (List ByteString) plainDisk albumTranscibe (.replicate 20 0) album rfl []
    albumManager rfl 2 rfl (by decide) (by decide) rfl⟩

end TorrentEngine
