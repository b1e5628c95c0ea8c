import TorrentEngine.FileManager
import TorrentEngine.Library.LexicalPath

/-! No file of a torrent leaves the directory of the torrent. The lexical operations of
`std::filesystem` are those of the library of path names; what the disk holds, and where its links lead,
stays open. -/

namespace TorrentEngine

open Bencode LexicalPath

/-- What `std::filesystem` answers from the disk. -/
structure Disk where
  weaklyCanonical : Path → Option Path
  isSymlink : Path → Option Bool
  createDirectories : Path → Bool

def Disk.filesystem (disk : Disk) : Filesystem Path where
  weaklyCanonical := disk.weaklyCanonical
  append p name := append p name.bytes
  lexicallyNormal := lexicallyNormal
  lexicallyRelative := lexicallyRelative
  length := List.length
  isEmpty := List.isEmpty
  isDot p := elements p == [dot]
  startsWithDotDot p := (elements p).head? == some dotDot
  isSymlink := disk.isSymlink
  createDirectories := disk.createDirectories

namespace FileMapper

/-- The names that no file or directory may have. -/
inductive Forbidden (name : ByteString) : Prop
  | empty : name.bytes = [] → Forbidden name
  | overLong : nameMax < name.size → Forbidden name
  | dot : name.bytes = dot → Forbidden name
  | dotDot : name.bytes = dotDot → Forbidden name
  | slash : ascii '/' ∈ name.bytes → Forbidden name
  | backslash : ascii '\\' ∈ name.bytes → Forbidden name
  | nul : 0 ∈ name.bytes → Forbidden name

theorem isValidName_of_forbidden {name : ByteString} (h : Forbidden name) : isValidName name = false := by
  rw [isValidName]
  cases h with
  | empty hname => rw [if_pos hname]
  | overLong hname => simp [hname]
  | dot hname =>
      have hdot : name = ByteString.ofString "." := ByteString.ext hname
      simp [hdot]
  | dotDot hname =>
      have hdotDot : name = ByteString.ofString ".." := ByteString.ext hname
      simp [hdotDot]
  | slash hname => simp [hname]
  | backslash hname => simp [hname]
  | nul hname => simp [hname]

variable {Path : Type} {fs : Filesystem Path}

theorem appendNames_of_forbidden {names : List ByteString} (h : ∃ name ∈ names, Forbidden name)
    (filePath : Path) : appendNames fs names filePath = none := by
  induction names generalizing filePath with
  | nil =>
      obtain ⟨name, hmem, -⟩ := h
      exact absurd hmem List.not_mem_nil
  | cons first names ih =>
      obtain ⟨name, hmem, hname⟩ := h
      rw [appendNames]
      split
      · rename_i hvalid
        rcases List.mem_cons.mp hmem with rfl | hmem
        · rw [isValidName_of_forbidden hname] at hvalid
          cases hvalid
        · exact ih ⟨name, hmem, hname⟩ _
      · rfl

/-- What an accepted path has passed. -/
theorem ifValidGetPath_eq_some {mapper : FileMapper Path} {path : List ByteString} {filePath : Path}
    (h : mapper.ifValidGetPath fs path = some filePath) :
    (∃ joined, fs.weaklyCanonical joined = some filePath) ∧ fs.length filePath < pathMax ∧
      let relativePath := fs.lexicallyRelative filePath mapper.rootDirectory
      fs.isEmpty relativePath = false ∧ fs.isDot relativePath = false ∧
        fs.startsWithDotDot relativePath = false := by
  rw [ifValidGetPath] at h
  split at h
  · cases h
  · split at h
    · cases h
    · rename_i joined happend
      split at h
      · cases h
      · rename_i canonical hcanonical
        split at h
        · cases h
        · rename_i hlength
          dsimp only at h
          split at h
          · cases h
          · rename_i hrelative
            cases h
            rw [Bool.or_eq_true, Bool.or_eq_true, not_or, not_or, Bool.not_eq_true, Bool.not_eq_true,
              Bool.not_eq_true] at hrelative
            exact ⟨⟨_, hcanonical⟩, Nat.lt_of_not_le hlength, hrelative.1.1, hrelative.1.2, hrelative.2⟩

theorem leadsDown_of_accepted {disk : Disk} {relative : LexicalPath.Path}
    (hempty : disk.filesystem.isEmpty relative = false) (hdot : disk.filesystem.isDot relative = false)
    (hup : disk.filesystem.startsWithDotDot relative = false) : LeadsDown relative where
  ne_nil := List.isEmpty_eq_false_iff.mp hempty
  ne_dot := beq_eq_false_iff_ne.mp hdot
  ne_dotDot := beq_eq_false_iff_ne.mp hup

/-- **Containment.** Wherever the links of the disk lead, a path that is accepted has the names of the root
directory and at least one more, none of them leading up, and element by element it goes on from the
root directory, whose name may only end in a separator; it is shorter than `PATH_MAX`; and a path without
names, or with a name that is not allowed, is refused. -/
theorem ifValidGetPath_contained (disk : Disk)
    (hcanonical : ∀ p q, disk.weaklyCanonical p = some q → Absolute q ∧ Normal q)
    (mapper : FileMapper LexicalPath.Path) (habsolute : Absolute mapper.rootDirectory)
    (hnormal : Normal mapper.rootDirectory) (path : List ByteString) :
    (∀ filePath, mapper.ifValidGetPath disk.filesystem path = some filePath →
        (∃ more, names filePath = names mapper.rootDirectory ++ more ∧ more ≠ [] ∧ dotDot ∉ more) ∧
        ([] ∉ elements mapper.rootDirectory →
          ∃ more, elements filePath = elements mapper.rootDirectory ++ more ∧ more ≠ [] ∧
            dotDot ∉ more) ∧
        filePath.length < pathMax) ∧
      (path = [] ∨ (∃ name ∈ path, Forbidden name) →
        mapper.ifValidGetPath disk.filesystem path = none) := by
  constructor
  · intro filePath h
    obtain ⟨⟨joined, hjoined⟩, hlength, hempty, hdot, hup⟩ := ifValidGetPath_eq_some h
    obtain ⟨hpa, hpn⟩ := hcanonical _ _ hjoined
    obtain ⟨hnames, helements⟩ :=
      names_of_leadsDown hpa hpn habsolute hnormal (leadsDown_of_accepted hempty hdot hup)
    exact ⟨hnames, helements, hlength⟩
  · rintro (rfl | hforbidden)
    · exact if_pos rfl
    · have hne : path ≠ [] := by
        rintro rfl
        obtain ⟨name, hmem, -⟩ := hforbidden
        exact absurd hmem List.not_mem_nil
      rw [ifValidGetPath, if_neg hne, appendNames_of_forbidden hforbidden]

/-- A disk without links, on which the directory `/d` holds the download. -/
def linklessDisk : Disk where
  weaklyCanonical p := if rooted p && lexicallyNormal p == p then some p else none
  isSymlink _ := some false
  createDirectories _ := true

/-- The file `f` of a torrent is `/d/f`. -/
theorem ifValidGetPath_contained_linkless :
    (FileMapper.mk [47, 100] []).ifValidGetPath linklessDisk.filesystem [.ofString "f"] =
        some [47, 100, 47, 102] ∧
      ∃ more, elements [47, 100, 47, 102] = elements [47, 100] ++ more ∧ more ≠ [] ∧
        dotDot ∉ more := by
  have hcanonical : ∀ p q, linklessDisk.weaklyCanonical p = some q → Absolute q ∧ Normal q := by
    intro p q h
    rw [linklessDisk, Option.ite_none_right_eq_some, Bool.and_eq_true, beq_iff_eq] at h
    obtain ⟨⟨habsolute, hnormal⟩, hq⟩ := h
    cases hq
    exact ⟨habsolute, hnormal⟩
  have haccepted : (FileMapper.mk [47, 100] []).ifValidGetPath linklessDisk.filesystem
      [.ofString "f"] = some [47, 100, 47, 102] := by decide
  obtain ⟨hcontained, -⟩ := ifValidGetPath_contained linklessDisk hcanonical ⟨[47, 100], []⟩
    (show rooted [47, 100] = true by decide) (show lexicallyNormal [47, 100] = [47, 100] by decide)
    [.ofString "f"]
  exact ⟨haccepted, (hcontained _ haccepted).2.1 (by decide)⟩

end FileMapper

end TorrentEngine
