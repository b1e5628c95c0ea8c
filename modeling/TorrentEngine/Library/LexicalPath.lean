import Mathlib.Data.List.Basic
import Mathlib.Order.Basic

/-! Path names of POSIX and the operations on them that look at no disk: the elements a path is made of,
joining, the normal form and relative paths. Several separators in a row count as one, and a separator at
the end leaves an empty last element. -/

namespace LexicalPath

/-- A path name. -/
abbrev Path := List UInt8

def slash : UInt8 := 47

def dot : Path := [46]

def dotDot : Path := [46, 46]

def rooted (p : Path) : Bool := p.head? == some slash

/-- The file names between the separators. -/
def names (p : Path) : List Path := (p.splitOn slash).filter (· ≠ [])

/-- The file names, and an empty one after a separator at the end. -/
def filenames (p : Path) : List Path :=
  names p ++ if names p ≠ [] ∧ p.getLast? = some slash then [[]] else []

/-- What an iteration over the path visits. -/
def elements (p : Path) : List Path := (if rooted p then [[slash]] else []) ++ filenames p

def hasFilename (p : Path) : Bool := p ≠ [] && p.getLast? != some slash

/-- `operator/=`: a rooted path replaces the one it is joined to. -/
def append (p q : Path) : Path :=
  if rooted q then q else if hasFilename p then p ++ slash :: q else p ++ q

/-- A file name on the stack of those that count, and whether a separator is left after them. -/
def push (rooted : Bool) (s : List Path × Bool) (name : Path) : List Path × Bool :=
  if name = [] ∨ name = dot then (s.1, true)
  else if name = dotDot then
    match s.1 with
    | [] => if rooted then ([], true) else ([dotDot], false)
    | top :: rest => if top = dotDot then (dotDot :: top :: rest, false) else (rest, true)
  else (name :: s.1, false)

/-- The path with the file names of a stack. -/
def write (rooted : Bool) : List Path × Bool → Path
  | ([], _) => if rooted then [slash] else dot
  | (top :: rest, sep) =>
      (if rooted then [slash] else []) ++ [slash].intercalate (top :: rest).reverse ++
        if sep && top != dotDot then [slash] else []

def lexicallyNormal (p : Path) : Path :=
  if p = [] then [] else write (rooted p) ((filenames p).foldl (push (rooted p)) ([], false))

/-- What is left of two lists after their common first elements. -/
def mismatch : List Path → List Path → List Path × List Path
  | x :: xs, y :: ys => if x = y then mismatch xs ys else (x :: xs, y :: ys)
  | xs, ys => (xs, ys)

/-- How many levels down the file names lead. -/
def depth (names : List Path) : Int :=
  (names.countP fun name => name ≠ [] ∧ name ≠ dot ∧ name ≠ dotDot) - names.count dotDot

def lexicallyRelative (p base : Path) : Path :=
  if rooted p ≠ rooted base then []
  else
    let (a, b) := mismatch (elements p) (elements base)
    if a = [] ∧ b = [] then dot
    else
      let n := depth b
      if n = 0 ∧ (a = [] ∨ a.head? = some []) then dot
      else if n < 0 then []
      else (List.replicate n.toNat dotDot ++ a).foldl append []

/-- The path starts at the root. -/
def Absolute (p : Path) : Prop := rooted p = true

/-- The path is its own normal form. -/
def Normal (p : Path) : Prop := lexicallyNormal p = p

/-- `/a/./b/../c/` and `c` relative to it. -/
example : lexicallyNormal [47, 97, 47, 46, 47, 98, 47, 46, 46, 47, 99, 47] = [47, 97, 47, 99, 47] := by
  decide

example : lexicallyRelative [47, 97, 47, 99] [47, 97, 47, 98, 47] = [46, 46, 47, 99] := by decide

/-! ### Elements -/

theorem slash_not_mem_splitOn (p : Path) : ∀ name ∈ p.splitOn slash, slash ∉ name := by
  induction p with
  | nil => simp
  | cons c p ih =>
      rw [List.splitOn_cons_eq_if_modifyHead]
      split
      · exact List.forall_mem_cons.mpr ⟨List.not_mem_nil, ih⟩
      · rename_i hc
        obtain ⟨first, rest, hsplit⟩ := List.exists_cons_of_ne_nil (List.splitOn_ne_nil slash p)
        rw [hsplit, List.forall_mem_cons] at ih
        rw [hsplit, List.modifyHead_cons, List.forall_mem_cons]
        refine ⟨fun hmem => ?_, ih.2⟩
        rcases List.mem_cons.mp hmem with heq | hmem
        · exact hc (beq_iff_eq.mpr heq.symm)
        · exact ih.1 hmem

theorem mem_names {p name : Path} : name ∈ names p ↔ name ∈ p.splitOn slash ∧ name ≠ [] := by
  rw [names, List.mem_filter, decide_eq_true_iff]

/-- A file name that stays in a normal form below the root. -/
structure Plain (name : Path) : Prop where
  ne_nil : name ≠ []
  ne_dot : name ≠ dot
  ne_dotDot : name ≠ dotDot
  slash_not_mem : slash ∉ name

theorem Plain.not_rooted {name : Path} (h : Plain name) : rooted name = false := by
  rw [rooted, beq_eq_false_iff_ne]
  exact fun hhead => h.slash_not_mem (List.mem_of_mem_head? hhead)

theorem mem_filenames {p name : Path} (h : name ∈ filenames p) : name ∈ names p ∨ name = [] := by
  rcases List.mem_append.mp h with hmem | hmem
  · exact Or.inl hmem
  · split at hmem
    · exact Or.inr (List.mem_singleton.mp hmem)
    · exact absurd hmem List.not_mem_nil

theorem filter_filenames (p : Path) : (filenames p).filter (· ≠ []) = names p := by
  have hnames : (names p).filter (· ≠ []) = names p := by
    rw [List.filter_eq_self]
    exact fun name hmem => decide_eq_true (mem_names.mp hmem).2
  rw [filenames, List.filter_append, hnames]
  split <;> simp

/-! ### Normal forms below the root -/

theorem push_plain {s : List Path × Bool} {name : Path} (hs : ∀ n ∈ s.1, Plain n)
    (hname : slash ∉ name) : ∀ n ∈ (push true s name).1, Plain n := by
  rw [push]
  split
  · exact hs
  · rename_i hcounts
    rw [not_or] at hcounts
    split
    · split
      · exact fun n hn => absurd hn List.not_mem_nil
      · rename_i top rest hstack
        rw [hstack, List.forall_mem_cons] at hs
        rw [if_neg hs.1.ne_dotDot]
        exact hs.2
    · rename_i hup
      exact List.forall_mem_cons.mpr ⟨⟨hcounts.1, hcounts.2, hup, hname⟩, hs⟩

theorem foldl_push_plain {fs : List Path} (hfs : ∀ name ∈ fs, slash ∉ name) {s : List Path × Bool}
    (hs : ∀ n ∈ s.1, Plain n) : ∀ n ∈ (fs.foldl (push true) s).1, Plain n := by
  induction fs generalizing s with
  | nil => exact hs
  | cons name fs ih =>
      rw [List.forall_mem_cons] at hfs
      exact ih hfs.2 (push_plain hs hfs.1)

/-- The names of a rooted path that was written from these names. -/
theorem mem_splitOn_intercalate {l : List Path} (hl : ∀ name ∈ l, Plain name) (hne : l ≠ []) (sep : Bool)
    {name : Path}
    (h : name ∈ ([slash] ++ [slash].intercalate l ++ if sep then [slash] else []).splitOn slash) :
    name ∈ l ∨ name = [] := by
  have hsplit : ([slash].intercalate l).splitOn slash = l :=
    List.splitOn_intercalate slash (fun name hmem => (hl name hmem).slash_not_mem) hne
  have hfirst : ∀ rest : Path, ([slash] ++ rest).splitOn slash = [] :: rest.splitOn slash :=
    fun rest => List.splitOn_append_cons_self [] rest
  rw [List.append_assoc, hfirst] at h
  rcases List.mem_cons.mp h with h | h
  · exact Or.inr h
  · cases sep with
    | false =>
        rw [if_neg Bool.false_ne_true, List.append_nil, hsplit] at h
        exact Or.inl h
    | true =>
        rw [if_pos rfl, List.splitOn_append_cons_self, hsplit, List.splitOn_nil] at h
        rcases List.mem_append.mp h with h | h
        · exact Or.inl h
        · exact Or.inr (List.mem_singleton.mp h)

/-- A normal form from the root is written from a stack of names that do not lead up. -/
theorem exists_stack {p : Path} (habs : Absolute p) :
    ∃ stack sep, (∀ name ∈ stack, Plain name) ∧ lexicallyNormal p = write true (stack, sep) := by
  have hp : p ≠ [] := by
    rintro rfl
    cases habs
  have hfs : ∀ name ∈ filenames p, slash ∉ name := by
    intro n hn
    rcases mem_filenames hn with hn | rfl
    · exact slash_not_mem_splitOn p n (mem_names.mp hn).1
    · exact List.not_mem_nil
  have hstack := @foldl_push_plain _ hfs ([], false) fun n hn => absurd hn List.not_mem_nil
  rw [lexicallyNormal, if_neg hp, habs]
  exact ⟨_, _, hstack, rfl⟩

/-- In the normal form of a rooted path no name leads up. -/
theorem names_lexicallyNormal {p : Path} (habs : Absolute p) :
    ∀ name ∈ names (lexicallyNormal p), Plain name := by
  intro name hname
  rw [mem_names] at hname
  obtain ⟨hmem, hne⟩ := hname
  obtain ⟨stack, sep, hstack, hwrite⟩ := exists_stack habs
  rw [hwrite] at hmem
  cases stack with
  | nil =>
      rw [write, if_pos rfl, show ([slash] : Path).splitOn slash = [[], []] by decide] at hmem
      simp only [List.mem_cons, List.not_mem_nil, or_false, or_self] at hmem
      exact absurd hmem hne
  | cons top rest =>
      rw [write, if_pos rfl] at hmem
      have hl : ∀ n ∈ (top :: rest).reverse, Plain n := fun n hn => hstack n (List.mem_reverse.mp hn)
      rcases mem_splitOn_intercalate hl (by simp) _ hmem with hmem | hnil
      · exact hl name hmem
      · exact absurd hnil hne

/-- The elements of a normal path from the root: the root, then names that do not lead up. -/
theorem Normal.names_plain {p : Path} (h : Normal p) (habs : Absolute p) :
    ∀ name ∈ names p, Plain name := by
  have hplain := names_lexicallyNormal habs
  rwa [show lexicallyNormal p = p from h] at hplain

theorem elements_eq {p : Path} (habs : Absolute p) : elements p = [slash] :: filenames p := by
  rw [elements, show rooted p = true from habs, if_pos rfl, List.singleton_append]

/-! ### Relative paths that lead down -/

theorem mismatch_spec (xs ys : List Path) :
    ∃ common, xs = common ++ (mismatch xs ys).1 ∧ ys = common ++ (mismatch xs ys).2 := by
  induction xs generalizing ys with
  | nil => exact ⟨[], rfl, rfl⟩
  | cons x xs ih =>
      cases ys with
      | nil => exact ⟨[], rfl, rfl⟩
      | cons y ys =>
          rw [mismatch]
          split
          · rename_i heq
            obtain ⟨common, hxs, hys⟩ := ih ys
            exact ⟨x :: common, congrArg (x :: ·) hxs, by rw [← heq]; exact congrArg (x :: ·) hys⟩
          · exact ⟨[], rfl, rfl⟩

/-- Joining names to a path that leads up keeps its first element. -/
theorem foldl_append_dotDot {qs : List Path} (hqs : ∀ q ∈ qs, rooted q = false) {t : Path}
    (ht : t = [] ∨ t.head? = some slash) :
    ∃ t', (t' = [] ∨ t'.head? = some slash) ∧ qs.foldl append (dotDot ++ t) = dotDot ++ t' := by
  induction qs generalizing t with
  | nil => exact ⟨t, ht, rfl⟩
  | cons q qs ih =>
      rw [List.forall_mem_cons] at hqs
      rw [List.foldl_cons, append, hqs.1, if_neg Bool.false_ne_true]
      split
      · rw [List.append_assoc]
        refine ih hqs.2 (Or.inr ?_)
        rcases ht with rfl | ht
        · rfl
        · rw [List.head?_append, ht, Option.some_or]
      · rename_i hclosed
        rw [List.append_assoc]
        refine ih hqs.2 (Or.inr ?_)
        rcases ht with rfl | ht
        · exact absurd rfl hclosed
        · rw [List.head?_append, ht, Option.some_or]

theorem head_elements_dotDot {t : Path} (ht : t = [] ∨ t.head? = some slash) :
    (elements (dotDot ++ t)).head? = some dotDot := by
  have hsplit : ∃ rest, (dotDot ++ t).splitOn slash = dotDot :: rest := by
    rcases ht with rfl | ht
    · exact ⟨[], by decide⟩
    · obtain ⟨t, rfl⟩ := List.head?_eq_some_iff.mp ht
      exact ⟨_, List.splitOn_append_cons_self_of_not_mem (by decide) t⟩
  obtain ⟨rest, hrest⟩ := hsplit
  have hnames : names (dotDot ++ t) = dotDot :: rest.filter (· ≠ []) := by
    rw [names, hrest, List.filter_cons_of_pos (by decide)]
  rw [elements, if_neg (by simp [rooted, dotDot, slash]), filenames, hnames]
  rfl

/-- The relative path is a path, not the directory itself, and does not start by leading up. -/
structure LeadsDown (relative : Path) : Prop where
  ne_nil : relative ≠ []
  ne_dot : elements relative ≠ [dot]
  ne_dotDot : (elements relative).head? ≠ some dotDot

/-- Names that do not lead up are as deep as they are many. -/
theorem depth_eq {b : List Path} (hb : ∀ name ∈ b, Plain name ∨ name = []) :
    depth b = b.countP (· ≠ []) := by
  have hup : b.count dotDot = 0 := by
    rw [List.count_eq_zero]
    intro hmem
    rcases hb dotDot hmem with hplain | hnil
    · exact hplain.ne_dotDot rfl
    · cases hnil
  have hcount : b.countP (fun name => decide (name ≠ [] ∧ name ≠ dot ∧ name ≠ dotDot)) =
      b.countP (· ≠ []) := by
    refine List.countP_congr fun name hmem => ?_
    rw [decide_eq_true_iff, decide_eq_true_iff]
    rcases hb name hmem with hplain | rfl
    · exact ⟨fun h => h.1, fun h => ⟨h, hplain.ne_dot, hplain.ne_dotDot⟩⟩
    · exact ⟨fun h => h.1, fun h => absurd rfl h⟩
  rw [depth, hup, hcount]
  exact Int.sub_zero _

/-- **A relative path that leads down leads below the base.** -/
theorem below_of_leadsDown {p base : Path} (hp : Absolute p) (hpn : Normal p) (hb : Absolute base)
    (hbn : Normal base) (h : LeadsDown (lexicallyRelative p base)) :
    ∃ common a b, filenames p = common ++ a ∧ filenames base = common ++ b ∧ (∀ name ∈ b, name = []) ∧
      a ≠ [] ∧ a.head? ≠ some [] := by
  have hplain : ∀ {q : Path}, Absolute q → Normal q → ∀ name ∈ filenames q,
      Plain name ∨ name = [] := fun hq hqn name hmem =>
    (mem_filenames hmem).imp_left (hqn.names_plain hq name)
  obtain ⟨common, hpa, hbb⟩ := mismatch_spec (filenames p) (filenames base)
  have hmismatch : mismatch (elements p) (elements base) =
      mismatch (filenames p) (filenames base) := by
    rw [elements_eq hp, elements_eq hb, mismatch, if_pos rfl]
  rw [lexicallyRelative, show rooted p = true from hp, show rooted base = true from hb,
    if_neg (by simp), hmismatch] at h
  generalize mismatch (filenames p) (filenames base) = ab at hpa hbb h
  obtain ⟨a, b⟩ := ab
  dsimp only at hpa hbb h
  have hbplain : ∀ name ∈ b, Plain name ∨ name = [] := fun name hmem =>
    hplain hb hbn name (by rw [hbb]; exact List.mem_append_right common hmem)
  have haplain : ∀ name ∈ a, rooted name = false := by
    intro name hmem
    rcases hplain hp hpn name (by rw [hpa]; exact List.mem_append_right common hmem) with hname | rfl
    · exact hname.not_rooted
    · rfl
  rw [depth_eq hbplain] at h
  have hdot : ¬ LeadsDown dot := fun hd => hd.ne_dot (by decide)
  refine ⟨common, a, b, hpa, hbb, ?_⟩
  split at h
  · exact absurd h hdot
  · split at h
    · exact absurd h hdot
    · rename_i hnot
      rw [if_neg (by omega), Int.toNat_natCast] at h
      cases hn : b.countP (· ≠ []) with
      | zero =>
          rw [hn] at hnot
          rw [List.countP_eq_zero] at hn
          refine ⟨fun name hmem => by simpa using hn name hmem, ?_, ?_⟩
          · exact fun hnil => hnot ⟨rfl, Or.inl hnil⟩
          · exact fun hhead => hnot ⟨rfl, Or.inr hhead⟩
      | succ n =>
          rw [hn, List.replicate_succ, List.cons_append, List.foldl_cons,
            show append [] dotDot = dotDot ++ [] by decide] at h
          have hqs : ∀ q ∈ List.replicate n dotDot ++ a, rooted q = false := by
            intro q hq
            rcases List.mem_append.mp hq with hq | hq
            · rw [List.eq_of_mem_replicate hq]
              decide
            · exact haplain q hq
          obtain ⟨t, ht, hfold⟩ := foldl_append_dotDot hqs (Or.inl rfl)
          rw [hfold] at h
          exact absurd (head_elements_dotDot ht) h.ne_dotDot

/-- The names of a path below a base: those of the base, and at least one more, none leading up. -/
theorem names_of_leadsDown {p base : Path} (hp : Absolute p) (hpn : Normal p) (hb : Absolute base)
    (hbn : Normal base) (h : LeadsDown (lexicallyRelative p base)) :
    (∃ more, names p = names base ++ more ∧ more ≠ [] ∧ dotDot ∉ more) ∧
      ([] ∉ elements base →
        ∃ more, elements p = elements base ++ more ∧ more ≠ [] ∧ dotDot ∉ more) := by
  obtain ⟨common, a, b, hpa, hbb, hempty, hne, hhead⟩ := below_of_leadsDown hp hpn hb hbn h
  have hup : dotDot ∉ a := by
    intro hmem
    have hfile : dotDot ∈ filenames p := by
      rw [hpa]
      exact List.mem_append_right common hmem
    rcases mem_filenames hfile with hname | hnil
    · exact (hpn.names_plain hp dotDot hname).ne_dotDot rfl
    · cases hnil
  constructor
  · refine ⟨a.filter (· ≠ []), ?_, ?_, fun hmem => hup (List.mem_of_mem_filter hmem)⟩
    · have hb' : b.filter (· ≠ []) = [] := by
        rw [List.filter_eq_nil_iff]
        exact fun name hmem => by simp [hempty name hmem]
      rw [← filter_filenames p, ← filter_filenames base, hpa, hbb, List.filter_append,
        List.filter_append, hb', List.append_nil]
    · obtain ⟨first, rest, rfl⟩ := List.exists_cons_of_ne_nil hne
      have hfirst : first ≠ [] := fun heq => hhead (by rw [heq]; rfl)
      exact List.ne_nil_of_mem (List.mem_filter.mpr ⟨List.mem_cons_self, decide_eq_true hfirst⟩)
  · intro hnot
    have hb' : b = [] := by
      rw [List.eq_nil_iff_forall_not_mem]
      intro name hmem
      apply hnot
      rw [elements_eq hb, hbb, ← hempty name hmem]
      exact List.mem_cons_of_mem _ (List.mem_append_right common hmem)
    refine ⟨a, ?_, hne, hup⟩
    rw [elements_eq hp, elements_eq hb, hpa, hbb, hb', List.append_nil, List.cons_append]

/-! ### Paths of given names -/

/-- The path of these names from the root. -/
def fromRoot (l : List Path) : Path := slash :: [slash].intercalate l

theorem intercalate_snoc {l : List Path} (hne : l ≠ []) (name : Path) :
    [slash].intercalate (l ++ [name]) = [slash].intercalate l ++ slash :: name := by
  induction l with
  | nil => exact absurd rfl hne
  | cons first l ih =>
      cases l with
      | nil =>
          rw [List.singleton_append, List.intercalate_cons_cons, List.intercalate_singleton,
            List.intercalate_singleton, List.append_assoc, List.singleton_append]
      | cons second l =>
          have hrest := List.cons_ne_nil second l
          rw [List.cons_append, List.intercalate_cons_of_ne_nil (List.append_ne_nil_of_left_ne_nil hrest _),
            ih hrest, List.intercalate_cons_of_ne_nil hrest, List.append_assoc _ _ (slash :: name)]

theorem absolute_fromRoot (l : List Path) : Absolute (fromRoot l) := rfl

variable {l : List Path} {p q : Path}

theorem splitOn_fromRoot (hl : ∀ name ∈ l, Plain name) (hne : l ≠ []) : (fromRoot l).splitOn slash = [] :: l := by
  have hsplit : ([slash].intercalate l).splitOn slash = l :=
    List.splitOn_intercalate slash (fun name hmem => (hl name hmem).slash_not_mem) hne
  have hfirst := List.splitOn_append_cons_self [] ([slash].intercalate l) (a := slash)
  rw [hsplit] at hfirst
  exact hfirst

theorem names_fromRoot (hl : ∀ name ∈ l, Plain name) : names (fromRoot l) = l := by
  by_cases hne : l = []
  · subst hne
    decide
  · rw [names, splitOn_fromRoot hl hne, List.filter_cons_of_neg (by decide), List.filter_eq_self]
    exact fun name hmem => decide_eq_true (hl name hmem).ne_nil

/-- No separator is left at the end. -/
theorem getLast?_fromRoot (hl : ∀ name ∈ l, Plain name) (hne : l ≠ []) :
    (fromRoot l).getLast? ≠ some slash := by
  intro hlast
  obtain ⟨before, hbefore⟩ := List.getLast?_eq_some_iff.mp hlast
  have hsplit := splitOn_fromRoot hl hne
  rw [hbefore, List.splitOn_append_cons_self, List.splitOn_nil] at hsplit
  have hend := congrArg List.getLast? hsplit
  rw [List.getLast?_concat] at hend
  have hmem : [] ∈ l := by
    obtain ⟨first, rest, rfl⟩ := List.exists_cons_of_ne_nil hne
    rw [List.getLast?_cons_cons] at hend
    exact List.mem_of_getLast? hend.symm
  exact (hl [] hmem).ne_nil rfl

theorem filenames_fromRoot (hl : ∀ name ∈ l, Plain name) : filenames (fromRoot l) = l := by
  rw [filenames, names_fromRoot hl, if_neg fun h => getLast?_fromRoot hl h.1 h.2, List.append_nil]

theorem hasFilename_fromRoot (hl : ∀ name ∈ l, Plain name) (hne : l ≠ []) : hasFilename (fromRoot l) = true := by
  rw [hasFilename, Bool.and_eq_true, bne_iff_ne]
  exact ⟨decide_eq_true (List.cons_ne_nil _ _), getLast?_fromRoot hl hne⟩

theorem push_of_plain {name : Path} (h : Plain name) (s : List Path × Bool) :
    push true s name = (name :: s.1, false) := by
  rw [push, if_neg (not_or.mpr ⟨h.ne_nil, h.ne_dot⟩), if_neg h.ne_dotDot]

theorem foldl_push_of_plain (hl : ∀ name ∈ l, Plain name) (stack : List Path) :
    l.foldl (push true) (stack, false) = (l.reverse ++ stack, false) := by
  induction l generalizing stack with
  | nil => rfl
  | cons name l ih =>
      rw [List.forall_mem_cons] at hl
      rw [List.foldl_cons, push_of_plain hl.1, ih hl.2, List.reverse_cons, List.append_assoc, List.singleton_append]

theorem normal_fromRoot (hl : ∀ name ∈ l, Plain name) : Normal (fromRoot l) := by
  rw [Normal, lexicallyNormal, if_neg (show fromRoot l ≠ [] from List.cons_ne_nil _ _),
    filenames_fromRoot hl,
    show rooted (fromRoot l) = true from rfl, foldl_push_of_plain hl, List.append_nil]
  cases hstack : l.reverse with
  | nil =>
      rw [List.reverse_eq_nil_iff] at hstack
      rw [hstack]
      rfl
  | cons top rest =>
      rw [write, ← hstack, List.reverse_reverse, if_pos rfl]
      exact List.append_nil _

theorem nil_not_mem_elements_fromRoot (hl : ∀ name ∈ l, Plain name) : [] ∉ elements (fromRoot l) := by
  rw [elements_eq (absolute_fromRoot l), filenames_fromRoot hl, List.mem_cons, not_or]
  exact ⟨(List.cons_ne_nil _ _).symm, fun hmem => (hl [] hmem).ne_nil rfl⟩

/-- A normal path from the root is the path of its names, with a separator after them at most. -/
theorem eq_fromRoot (habs : Absolute p) (hnormal : Normal p) :
    p = fromRoot (names p) ∨ names p ≠ [] ∧ p = fromRoot (names p) ++ [slash] := by
  obtain ⟨stack, sep, hstack, hwrite⟩ := exists_stack habs
  rw [show lexicallyNormal p = p from hnormal] at hwrite
  have hl : ∀ name ∈ stack.reverse, Plain name := fun name hmem => hstack name (List.mem_reverse.mp hmem)
  cases stack with
  | nil =>
      obtain rfl : p = [slash] := hwrite
      exact Or.inl (by decide)
  | cons top rest =>
      have hne : (top :: rest).reverse ≠ [] := by simp
      cases hsep : (sep && top != dotDot) with
      | false =>
          rw [write, hsep, if_neg Bool.false_ne_true, List.append_nil] at hwrite
          have hfrom : p = fromRoot (top :: rest).reverse := hwrite
          left
          rw [hfrom, names_fromRoot hl]
      | true =>
          rw [write, hsep, if_pos rfl] at hwrite
          have hfrom : p = fromRoot (top :: rest).reverse ++ [slash] := hwrite
          have hnames : names p = (top :: rest).reverse := by
            rw [← names_fromRoot hl, names, names, hfrom, List.splitOn_append_cons_self, List.splitOn_nil,
              List.filter_append]
            exact List.append_nil _
          right
          rw [hnames]
          exact ⟨hne, hfrom⟩

/-- Joining a name to a normal path. -/
theorem append_plain (habs : Absolute p) (hnormal : Normal p) (hq : Plain q) :
    append p q = fromRoot (names p ++ [q]) := by
  have hplain := hnormal.names_plain habs
  rw [append, hq.not_rooted, if_neg Bool.false_ne_true]
  rcases eq_fromRoot habs hnormal with heq | ⟨hne, heq⟩
  · by_cases hne : names p = []
    · rw [hne] at heq ⊢
      obtain rfl : p = [slash] := heq
      rw [if_neg (by decide), List.nil_append, fromRoot, List.intercalate_singleton]
      rfl
    · have hfilename : hasFilename p = true := by
        rw [heq]
        exact hasFilename_fromRoot hplain hne
      rw [if_pos hfilename, fromRoot, intercalate_snoc hne]
      exact congrArg (· ++ slash :: q) heq
  · have hfilename : hasFilename p = false := by
      rw [heq, hasFilename, List.getLast?_concat, bne_self_eq_false, Bool.and_false]
    rw [hfilename, if_neg Bool.false_ne_true, fromRoot, intercalate_snoc hne]
    refine (congrArg (· ++ q) heq).trans ?_
    rw [List.append_assoc, fromRoot, List.cons_append, List.singleton_append]
end LexicalPath
