import TorrentEngine.TorrentFile
import TorrentEngine.Library.Tiling

/-! `file_mapper_t` and `piece_mapper_t`: the table of files of a torrent, and for every piece the parts
of files it is made of. What `std::filesystem` answers about a path is a parameter. -/

namespace TorrentEngine

open Bencode

/-- The operations of `std::filesystem` the mapper uses, over the state of the disk it meets. -/
structure Filesystem (Path : Type) where
  /-- `none` where an error code is set. -/
  weaklyCanonical : Path → Option Path
  append : Path → ByteString → Path
  lexicallyNormal : Path → Path
  lexicallyRelative : Path → Path → Path
  length : Path → Nat
  isEmpty : Path → Bool
  isDot : Path → Bool
  startsWithDotDot : Path → Bool
  /-- `none` where a `filesystem_error` is thrown. -/
  isSymlink : Path → Option Bool
  /-- Whether the directories were created. -/
  createDirectories : Path → Bool

structure FileT (Path : Type) where
  created : Bool
  descriptor : Int
  size : Nat
  path : Path

structure FilePiece where
  file : Nat
  offset : Nat
  size : Nat
  deriving DecidableEq, Repr

structure FileRange where
  startByte : Nat
  endByte : Nat
  deriving DecidableEq, Repr

structure FileMapper (Path : Type) where
  rootDirectory : Path
  fileTable : List (FileT Path)

namespace FileMapper

def nameMax : Nat := 255

def pathMax : Nat := 4096

def isValidName (name : ByteString) : Bool :=
  if name.bytes = [] then false
  else if name.size > nameMax then false
  else if name = ByteString.ofString "." || name = ByteString.ofString ".." then false
  else if ascii '/' ∈ name.bytes then false
  else if ascii '\\' ∈ name.bytes then false
  else if 0 ∈ name.bytes then false
  else true

variable {Path : Type} (fs : Filesystem Path)

/-- The `for` loop over the names of a path. -/
def appendNames : List ByteString → Path → Option Path
  | [], filePath => some filePath
  | name :: names, filePath =>
      if isValidName name then appendNames names (fs.append filePath name) else none

def ifValidGetPath (mapper : FileMapper Path) (path : List ByteString) : Option Path :=
  if path = [] then none
  else match appendNames fs path mapper.rootDirectory with
    | none => none
    | some filePath =>
        match fs.weaklyCanonical (fs.lexicallyNormal filePath) with
        | none => none
        | some filePath =>
            if fs.length filePath ≥ pathMax then none
            else
              let relativePath := fs.lexicallyRelative filePath mapper.rootDirectory
              if fs.isEmpty relativePath || fs.isDot relativePath || fs.startsWithDotDot relativePath
              then none else some filePath

def indexFile (mapper : FileMapper Path) (pathNames : List ByteString) (size : Nat) :
    Except Fault (FileMapper Path) :=
  match ifValidGetPath fs mapper pathNames with
  | none => .error (.runtimeError "Invalid file path from torrent")
  | some path =>
      .ok { mapper with fileTable := mapper.fileTable ++ [⟨false, -1, size, path⟩] }

/-- The directory a torrent is stored in: one of its own when it has several files. -/
def torrentRoot (torrent : TorrentFile) (root : Path) : Except Fault Path := do
  let torrentDirectory ← torrent.getTorrentName
  if torrent.isFile then pure root
  else if !isValidName torrentDirectory then .error (.runtimeError "Invalid Torrent Name")
  else
    match fs.isSymlink (fs.append root torrentDirectory) with
    | none => .error .filesystemError
    | some true => .error (.runtimeError "Torrent directory is a symlink")
    | some false => pure (fs.append root torrentDirectory)

/-- The constructor of `file_mapper_t`. -/
def construct (directory : Path) (torrent : TorrentFile) : Except Fault (FileMapper Path) :=
  match fs.weaklyCanonical directory with
  | none => .error (.runtimeError "Cannot resolve download directory")
  | some root => do
      let root ← torrentRoot fs torrent root
      if fs.createDirectories root then pure ⟨root, []⟩ else .error .filesystemError

end FileMapper

structure PieceMapper where
  pieceLength : Nat
  fileRanges : List FileRange

namespace PieceMapper

variable {Path : Type} (fs : Filesystem Path)

/-- The `for` loop over a path list. -/
def decodePathList : List Data → Except Fault (List ByteString)
  | [] => pure []
  | .string name _ :: rest => do
      let names ← decodePathList rest
      pure (name :: names)
  | _ :: _ => .error (.runtimeError " torrent path list names not string ")

/-- The `for` loop over the files of a torrent. -/
def mapFiles : List Data → Nat → Nat → List FileRange → FileMapper Path →
    Except Fault (List FileRange × FileMapper Path)
  | [], _, _, fileRanges, fileMapper => pure (fileRanges, fileMapper)
  | file :: files, fileIndex, startByte, fileRanges, fileMapper => do
      let fileMap ← file.getAsDictionary
      let length ← (← dereference "length" fileMap).getAsInteger
      let fileSize := SizeT.ofInt length.toInt
      let fileRanges := fileRanges.set fileIndex ⟨startByte, SizeT.add fileSize startByte⟩
      let pathList ← (← dereference "path" fileMap).getAsList
      let decodedPathList ← decodePathList pathList
      let fileMapper ← fileMapper.indexFile fs decodedPathList fileSize
      mapFiles files (fileIndex + 1) (SizeT.add startByte fileSize) fileRanges fileMapper

/-- The constructor of `piece_mapper_t`, which also fills the file table. -/
def construct (torrent : TorrentFile) (fileMapper : FileMapper Path) :
    Except Fault (PieceMapper × FileMapper Path) := do
  let pieceLength := SizeT.ofInt (← torrent.getPieceLength).toInt
  let fileRanges := List.replicate torrent.fileCount ⟨0, 0⟩
  if torrent.isFile then do
    let downloadSize := SizeT.ofInt torrent.downloadSize.toInt
    let fileRanges := fileRanges.set 0 ⟨0, downloadSize⟩
    let name ← torrent.getTorrentName
    let fileMapper ← fileMapper.indexFile fs [name] downloadSize
    pure (⟨pieceLength, fileRanges⟩, fileMapper)
  else
    match ← torrent.files with
    | none => .error .undefined
    | some files => do
        let (fileRanges, fileMapper) ← mapFiles fs files 0 0 fileRanges fileMapper
        pure (⟨pieceLength, fileRanges⟩, fileMapper)

/-- The `for` loop of `files_for`, from the range found on. -/
def filesForLoop (pieceByteMark : Nat) : Nat → List FileRange → Nat → List FilePiece
  | _, [], _ => []
  | fileIdx, fileMap :: rest, pieceRemaining =>
      if pieceRemaining = 0 then []
      else
        let availableInFile := SizeT.sub fileMap.endByte fileMap.startByte
        if availableInFile = 0 ∨ pieceByteMark = fileMap.endByte then
          filesForLoop pieceByteMark (fileIdx + 1) rest pieceRemaining
        else
          let fileStart :=
            if pieceByteMark > fileMap.startByte then SizeT.sub pieceByteMark fileMap.startByte else 0
          let availableInFile :=
            if pieceByteMark > fileMap.startByte then SizeT.sub fileMap.endByte pieceByteMark
            else availableInFile
          let writable := min availableInFile pieceRemaining
          ⟨fileIdx, fileStart, writable⟩ ::
            filesForLoop pieceByteMark (fileIdx + 1) rest (SizeT.sub pieceRemaining writable)

def filesFor (mapper : PieceMapper) (pieceIndex : Nat) : List FilePiece :=
  let pieceByteMark := SizeT.mul pieceIndex mapper.pieceLength
  let fileIdx := Tiling.lowerBound (fun a => decide (a.endByte < pieceByteMark)) mapper.fileRanges
  filesForLoop pieceByteMark fileIdx (mapper.fileRanges.drop fileIdx) mapper.pieceLength

end PieceMapper

/-- `FileManager`, which constructs the piece mapper over the file mapper. -/
structure FileManager (Path : Type) where
  fileMap : FileMapper Path
  pieceMap : PieceMapper

namespace FileManager

variable {Path : Type} (fs : Filesystem Path)

def construct (path : Path) (torrent : TorrentFile) : Except Fault (FileManager Path) := do
  let fileMap ← FileMapper.construct fs path torrent
  let (pieceMap, fileMap) ← PieceMapper.construct fs torrent fileMap
  pure ⟨fileMap, pieceMap⟩

end FileManager

end TorrentEngine
