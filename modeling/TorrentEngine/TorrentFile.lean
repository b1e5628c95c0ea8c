import TorrentEngine.BencodeAccess
import TorrentEngine.BencodePositions
import TorrentEngine.SizeT

/-! `TorrentFile`: the metainfo of a torrent, checked by `parse_transcription`, and the info hash. The
constructor starts here from the bytes of the file. -/

namespace TorrentEngine

open Bencode

/-- `std::array<std::byte, 20>`. -/
abbrev Digest := Vector Byte 20

structure TorrentFile where
  transcibe : Dictionary
  infoHashByte : Digest
  isFile : Bool
  downloadSize : Int64
  pieceCount : Nat
  fileCount : Nat

namespace TorrentFile

/-- The members as the constructor finds them when it calls `parse_transcription`. -/
def unparsed (transcibe : Dictionary) (infoHashByte : Digest) : TorrentFile :=
  ⟨transcibe, infoHashByte, false, 0, 0, 0⟩

def infoMap (torrent : TorrentFile) : Except Fault Dictionary := do
  (← dereference "info" torrent.transcibe).getAsDictionary

def pieces (torrent : TorrentFile) : Except Fault ByteString := do
  (← dereference "pieces" (← torrent.infoMap)).getAsString

def getTorrentName (torrent : TorrentFile) : Except Fault ByteString := do
  (← dereference "name" (← torrent.infoMap)).getAsString

def getPieceLength (torrent : TorrentFile) : Except Fault Int64 := do
  (← dereference "piece length" (← torrent.infoMap)).getAsInteger

def files (torrent : TorrentFile) : Except Fault (Option (List Data)) :=
  if torrent.isFile then pure none
  else do
    let files ← (← dereference "files" (← torrent.infoMap)).getAsList
    pure (some files)

/-- `utils::ceil_div`, undefined for a zero divisor. -/
def ceilDiv (a b : Nat) : Except Fault Nat :=
  if b = 0 then .error .undefined else .ok (a / b + if a % b ≠ 0 then 1 else 0)

/-- `a += b`, undefined where the sum is not an `int64_t`. -/
def addSigned (a b : Int64) : Except Fault Int64 :=
  if -2 ^ 63 ≤ a.toInt + b.toInt ∧ a.toInt + b.toInt < 2 ^ 63 then .ok (a + b)
  else .error .undefined

/-- The `for` loop over the files: the size accumulated, or `none` where `false` is returned. -/
def addFiles : List Data → Int64 → Except Fault (Option Int64)
  | [], downloadSize => pure (some downloadSize)
  | file :: files, downloadSize => do
      let fileMap ← file.getAsDictionary
      match find "length" fileMap with
      | none => pure none
      | some found =>
          let length ← found.getAsInteger
          let downloadSize ← addSigned downloadSize length
          if contains "path" fileMap then addFiles files downloadSize else pure none

/-- The branches of `parse_transcription` on a single file and on a list of files. -/
def parseLengths (torrent : TorrentFile) (info : Dictionary) : Except Fault (Option TorrentFile) :=
  match find "length" info with
  | some found =>
      if contains "files" info then pure none
      else do
        let length ← found.getAsInteger
        pure (some { torrent with isFile := true, downloadSize := length, fileCount := 1 })
  | none =>
      match find "files" info with
      | none => pure none
      | some found =>
          if contains "length" info then pure none
          else do
            let files ← found.getAsList
            match ← addFiles files torrent.downloadSize with
            | none => pure none
            | some downloadSize =>
                pure (some { torrent with isFile := false, downloadSize, fileCount := files.length })

/-- The check of the piece count against the sizes. -/
def parsePieces (torrent : TorrentFile) : Except Fault (Option TorrentFile) := do
  let pieces ← torrent.pieces
  if pieces.size % 20 ≠ 0 then pure none
  else
    let pieceCount := pieces.size / 20
    let pieceLength ← torrent.getPieceLength
    let expected ← ceilDiv (SizeT.ofInt torrent.downloadSize.toInt) (SizeT.ofInt pieceLength.toInt)
    if expected ≠ pieceCount then pure none else pure (some { torrent with pieceCount })

/-- The torrent with its sizes filled in, or `none` where `false` is returned. -/
def parseTranscription (torrent : TorrentFile) : Except Fault (Option TorrentFile) := do
  let info ← torrent.infoMap
  if !contains "name" info && !contains "pieces" info && !contains "piece length" info then pure none
  else
    match ← parseLengths torrent info with
    | none => pure none
    | some torrent => parsePieces torrent

section Construct

variable (getSha1 : List Byte → Digest)

/-- The constructor, from the bytes read from the file. -/
def construct (sourceBuffer : List Byte) : Except Fault TorrentFile :=
  match Decode.input sourceBuffer with
  | some (.dictionary transcibe _) =>
      match find "info" transcibe with
      | none => .error .invalidTorrentFile
      | some infoValue => do
          let encode := infoValue.positionInSource
          let infoHashByte := getSha1 (encode.slice sourceBuffer)
          match ← parseTranscription (unparsed transcibe infoHashByte) with
          | none => .error .invalidTorrentFile
          | some torrent => pure torrent
  | _ => .error .invalidTorrentFile

end Construct

/-! ### What an accepted torrent satisfies -/

/-- How the branch taken fills in the sizes. -/
inductive Measured (torrent : TorrentFile) (info : Dictionary) : TorrentFile → Prop
  | single {length : Int64} {p : SourceStats} : find "length" info = some (.integer length p) →
      Measured torrent info { torrent with isFile := true, downloadSize := length, fileCount := 1 }
  | multiple {files : List Data} {p : SourceStats} {downloadSize : Int64} :
      find "length" info = none → find "files" info = some (.list files p) →
      addFiles files torrent.downloadSize = .ok (some downloadSize) →
      Measured torrent info
        { torrent with isFile := false, downloadSize, fileCount := files.length }

theorem parseLengths_measured {torrent torrent' : TorrentFile} {info : Dictionary}
    (h : parseLengths torrent info = .ok (some torrent')) : Measured torrent info torrent' := by
  rw [parseLengths] at h
  split at h
  · rename_i found hfound
    split at h
    · cases h
    · obtain ⟨length, hlength, h⟩ := Except.bind_eq_ok.mp h
      obtain ⟨p, rfl⟩ := Data.getAsInteger_eq_ok.mp hlength
      cases h
      exact .single hfound
  · rename_i hnone
    split at h
    · cases h
    · rename_i found hfound
      split at h
      · cases h
      · obtain ⟨files, hfiles, hrest⟩ := Except.bind_eq_ok.mp h
        obtain ⟨size, hsize, hdone⟩ := Except.bind_eq_ok.mp hrest
        obtain ⟨p, rfl⟩ := Data.getAsList_eq_ok.mp hfiles
        cases size with
        | none => cases hdone
        | some downloadSize =>
            cases hdone
            exact .multiple hnone hfound hsize

theorem parsePieces_spec {torrent parsed : TorrentFile}
    (h : parsePieces torrent = .ok (some parsed)) :
    parsed = { torrent with pieceCount := parsed.pieceCount } ∧
      ∃ pieceLength, torrent.getPieceLength = .ok pieceLength ∧
        ceilDiv (SizeT.ofInt torrent.downloadSize.toInt) (SizeT.ofInt pieceLength.toInt) =
          .ok parsed.pieceCount := by
  rw [parsePieces] at h
  obtain ⟨pieces, hpieces, h⟩ := Except.bind_eq_ok.mp h
  split at h
  · cases h
  · obtain ⟨pieceLength, hlength, h⟩ := Except.bind_eq_ok.mp h
    obtain ⟨expected, hexpected, h⟩ := Except.bind_eq_ok.mp h
    split at h
    · cases h
    · rename_i hcount
      cases h
      rw [not_not] at hcount
      exact ⟨rfl, pieceLength, hlength, by rw [hexpected, hcount]⟩

theorem parseTranscription_spec {torrent parsed : TorrentFile}
    (h : parseTranscription torrent = .ok (some parsed)) :
    ∃ info measured, torrent.infoMap = .ok info ∧ Measured torrent info measured ∧
      parsePieces measured = .ok (some parsed) := by
  rw [parseTranscription] at h
  obtain ⟨info, hinfo, h⟩ := Except.bind_eq_ok.mp h
  split at h
  · cases h
  · obtain ⟨sized, hsized, h⟩ := Except.bind_eq_ok.mp h
    cases sized with
    | none => cases h
    | some measured => exact ⟨info, measured, hinfo, parseLengths_measured hsized, h⟩

/-- Parsing fills in the sizes and leaves the rest. -/
theorem parseTranscription_frame {torrent parsed : TorrentFile}
    (h : parseTranscription torrent = .ok (some parsed)) :
    parsed.transcibe = torrent.transcibe ∧ parsed.infoHashByte = torrent.infoHashByte := by
  obtain ⟨info, measured, -, hmeasured, hpieces⟩ := parseTranscription_spec h
  rw [(parsePieces_spec hpieces).1]
  cases hmeasured with
  | single _ => exact ⟨rfl, rfl⟩
  | multiple _ _ _ => exact ⟨rfl, rfl⟩

/-! ### The info hash -/

variable {getSha1 : List Byte → Digest}

theorem construct_spec {sourceBuffer : List Byte} {torrent : TorrentFile}
    (h : construct getSha1 sourceBuffer = .ok torrent) :
    ∃ transcibe p infoValue, Decode.input sourceBuffer = some (.dictionary transcibe p) ∧
      find "info" transcibe = some infoValue ∧ torrent.transcibe = transcibe ∧
      torrent.infoHashByte = getSha1 (infoValue.positionInSource.slice sourceBuffer) := by
  rw [construct] at h
  split at h
  · rename_i transcibe p hinput
    split at h
    · cases h
    · rename_i infoValue hinfo
      obtain ⟨parsed, hparsed, h⟩ := Except.bind_eq_ok.mp h
      cases parsed with
      | none => cases h
      | some parsed =>
          cases h
          obtain ⟨htranscibe, hhash⟩ := parseTranscription_frame hparsed
          exact ⟨transcibe, p, infoValue, hinput, hinfo, htranscibe, hhash⟩
  · cases h

/-- Every value of an accepted source stands in the source where it says, decodes from there alone, and
contains its children apart from one another; so the bytes hashed for the info hash are the encoding of
the `info` value. -/
theorem positions_are_exact {source : List Byte} {d : Data} (h : Decode.input source = some d) :
    (∀ v, Data.Within v d →
      v.positionInSource.stop ≤ source.length ∧
      (∃ v₀, Decode.input (v.positionInSource.slice source) = some v₀ ∧
        v₀.shift v.positionInSource.start = v) ∧
      (∀ c ∈ v.children, c.positionInSource.StrictlyInside v.positionInSource) ∧
      v.children.Pairwise fun c c' => c.positionInSource.Disjoint c'.positionInSource) ∧
    ∀ (getSha1 : List Byte → Digest) (torrent : TorrentFile),
      construct getSha1 source = .ok torrent →
      ∃ before encode after infoValue, source = before ++ (encode ++ after) ∧
        find "info" torrent.transcibe = some infoValue ∧ Derives encode infoValue.erase ∧
        infoValue.positionInSource = ⟨before.length, encode.length⟩ ∧
        torrent.infoHashByte = getSha1 encode := by
  have hencodes := input_eq_some.mp h
  constructor
  · intro v hv
    obtain ⟨before, encode, after, rfl, hencode, v₀, hv₀, hshift⟩ := hencodes.decode_alone hv
    refine ⟨?_, ⟨v₀, ?_, ?_⟩, fun c hc => hencode.child_strictlyInside hc, hencode.siblings_disjoint⟩
    · rw [hencode.positionInSource]
      simp only [SourceStats.stop, List.length_append]
      omega
    · rw [hencode.positionInSource, SourceStats.slice_append, hv₀]
    · rw [hencode.positionInSource, hshift]
  · intro getSha1 torrent hconstruct
    obtain ⟨transcibe, p, infoValue, hinput, hinfo, htranscibe, hhash⟩ := construct_spec hconstruct
    rw [h] at hinput
    cases hinput
    have hwithin : Data.Within infoValue (.dictionary transcibe p) :=
      .child (find_mem hinfo) (.self infoValue)
    obtain ⟨before, encode, after, rfl, hencode, -⟩ := hencodes.decode_alone hwithin
    refine ⟨before, encode, after, infoValue, rfl, by rw [htranscibe, hinfo], hencode.derives,
      hencode.positionInSource, ?_⟩
    rw [hhash, hencode.positionInSource, SourceStats.slice_append]

/-- An album of two files of one byte, behind the url of a tracker. -/
def albumSource : List Byte :=
  ("d8:announce3:url4:infod5:filesld6:lengthi1e4:pathl1:aeed6:lengthi1e4:pathl1:beee4:name5:album" ++
    "12:piece lengthi2e6:pieces20:aaaaaaaaaaaaaaaaaaaaee").toList.map ascii

/-- A digest that keeps the first bytes. -/
def firstBytes (bytes : List Byte) : Digest := Vector.ofFn fun i => bytes.getD i 0

theorem input_album : (Decode.input albumSource).map (fun d => d.children.length) = some 2 := by
  decide +kernel

theorem construct_album :
    (construct firstBytes albumSource).toOption.map (fun torrent => torrent.infoHashByte.toList) =
      some ("d5:filesld6:lengthi1".toList.map ascii) := by
  decide +kernel

theorem positions_are_exact_album : ∃ d torrent,
    Decode.input albumSource = some d ∧ d.children.length = 2 ∧
      construct firstBytes albumSource = .ok torrent ∧
      torrent.infoHashByte.toList = "d5:filesld6:lengthi1".toList.map ascii ∧
      (∀ v, Data.Within v d →
        v.positionInSource.stop ≤ albumSource.length ∧
        (∃ v₀, Decode.input (v.positionInSource.slice albumSource) = some v₀ ∧
          v₀.shift v.positionInSource.start = v) ∧
        (∀ c ∈ v.children, c.positionInSource.StrictlyInside v.positionInSource) ∧
        v.children.Pairwise fun c c' => c.positionInSource.Disjoint c'.positionInSource) ∧
      ∃ before encode after infoValue, albumSource = before ++ (encode ++ after) ∧
        find "info" torrent.transcibe = some infoValue ∧ Derives encode infoValue.erase ∧
        infoValue.positionInSource = ⟨before.length, encode.length⟩ ∧
        torrent.infoHashByte = firstBytes encode := by
  obtain ⟨d, hinput, hchildren⟩ := Option.map_eq_some_iff.mp input_album
  obtain ⟨torrent, hsome, hhash⟩ := Option.map_eq_some_iff.mp construct_album
  have htorrent : construct firstBytes albumSource = .ok torrent := Except.toOption_eq_some.mp hsome
  have hexact := positions_are_exact hinput
  exact ⟨d, torrent, hinput, hchildren, htorrent, hhash, hexact.1, hexact.2 firstBytes torrent htorrent⟩

end TorrentFile

end TorrentEngine
