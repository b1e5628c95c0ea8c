import Mathlib.Data.List.Sort
import Mathlib.Data.List.Perm.Basic
import Mathlib.Order.Defs.LinearOrder

/-! Finite maps as lists of entries in strictly ascending key order: one list for each map, insertion
that refuses a key already present, and sorting of entries that come in any order. -/

namespace OrderedEntries

variable {K V : Type*} [LinearOrder K]

/-- The keys are strictly ascending. -/
def Sorted (entries : List (K × V)) : Prop := entries.Pairwise fun a b => a.1 < b.1

def keys (entries : List (K × V)) : List K := entries.map Prod.fst

def find (key : K) (entries : List (K × V)) : Option V :=
  (entries.find? fun entry => entry.1 = key).map Prod.snd

/-- Insertion at the place of the key, refused when an entry has the key already. -/
def tryEmplace (key : K) (value : V) : List (K × V) → Option (List (K × V))
  | [] => some [(key, value)]
  | entry :: entries =>
      if key < entry.1 then some ((key, value) :: entry :: entries)
      else if key = entry.1 then none
      else (tryEmplace key value entries).map (entry :: ·)

/-- The entries in ascending key order. -/
def sort (entries : List (K × V)) : List (K × V) :=
  entries.mergeSort fun a b => decide (a.1 ≤ b.1)

theorem pairwise_keys {entries : List (K × V)} :
    (keys entries).Pairwise (· < ·) ↔ Sorted entries := List.pairwise_map

theorem Sorted.nodup_keys {entries : List (K × V)} (h : Sorted entries) : (keys entries).Nodup :=
  List.Pairwise.imp (fun hlt => ne_of_lt hlt) (pairwise_keys.mpr h)

/-- A map has one list of entries. -/
theorem Sorted.eq_of_perm {entries others : List (K × V)} (h : Sorted entries)
    (h' : Sorted others) (hperm : entries.Perm others) : entries = others :=
  List.Perm.eq_of_pairwise (fun _ _ _ _ hab hba => absurd hab (lt_asymm hba)) h h' hperm

theorem sort_perm (entries : List (K × V)) : (sort entries).Perm entries :=
  List.mergeSort_perm entries _

omit [LinearOrder K] in
theorem keys_perm {entries others : List (K × V)} (h : entries.Perm others) :
    (keys entries).Perm (keys others) := h.map Prod.fst

theorem sort_sorted {entries : List (K × V)} (hnodup : (keys entries).Nodup) :
    Sorted (sort entries) := by
  have hle : (sort entries).Pairwise fun a b => decide (a.1 ≤ b.1) = true :=
    List.pairwise_mergeSort (fun a b c hab hbc => decide_eq_true
        ((of_decide_eq_true hab).trans (of_decide_eq_true hbc)))
      (fun a b => by simpa using le_total a.1 b.1) entries
  have hne : (sort entries).Pairwise fun a b => a.1 ≠ b.1 :=
    List.pairwise_map.mp ((keys_perm (sort_perm entries)).nodup_iff.mpr hnodup)
  exact (hle.and hne).imp fun hab => lt_of_le_of_ne (of_decide_eq_true hab.1) hab.2

/-- Sorting forgets the order the entries came in. -/
theorem sort_eq_of_perm {entries others : List (K × V)} (hnodup : (keys entries).Nodup)
    (hperm : entries.Perm others) : sort entries = sort others :=
  (sort_sorted hnodup).eq_of_perm (sort_sorted ((keys_perm hperm).nodup_iff.mp hnodup))
    ((sort_perm entries).trans (hperm.trans (sort_perm others).symm))

theorem tryEmplace_perm {key : K} {value : V} {entries entries' : List (K × V)}
    (h : tryEmplace key value entries = some entries') :
    entries'.Perm ((key, value) :: entries) := by
  induction entries generalizing entries' with
  | nil =>
      cases h
      exact List.Perm.refl _
  | cons entry entries ih =>
      rw [tryEmplace] at h
      split at h
      · cases h
        exact List.Perm.refl _
      · split at h
        · cases h
        · obtain ⟨rest, hrest, rfl⟩ := Option.map_eq_some_iff.mp h
          exact ((ih hrest).cons entry).trans (List.Perm.swap _ _ _)

theorem tryEmplace_sorted {key : K} {value : V} {entries entries' : List (K × V)}
    (hsorted : Sorted entries) (h : tryEmplace key value entries = some entries') :
    Sorted entries' := by
  induction entries generalizing entries' with
  | nil =>
      cases h
      exact List.pairwise_singleton _ _
  | cons entry entries ih =>
      obtain ⟨hhead, htail⟩ := List.pairwise_cons.mp hsorted
      rw [tryEmplace] at h
      split at h
      · rename_i hlt
        cases h
        refine List.pairwise_cons.mpr ⟨?_, hsorted⟩
        intro other hother
        rcases List.mem_cons.mp hother with rfl | hmem
        · exact hlt
        · exact hlt.trans (hhead other hmem)
      · rename_i hnlt
        split at h
        · cases h
        · rename_i hne
          obtain ⟨rest, hrest, rfl⟩ := Option.map_eq_some_iff.mp h
          refine List.pairwise_cons.mpr ⟨?_, ih htail hrest⟩
          intro other hother
          rcases List.mem_cons.mp ((tryEmplace_perm hrest).mem_iff.mp hother) with rfl | hmem
          · exact lt_of_le_of_ne (not_lt.mp hnlt) (Ne.symm hne)
          · exact hhead other hmem

/-- A new key is always inserted. -/
theorem tryEmplace_isSome {key : K} {value : V} {entries : List (K × V)}
    (h : key ∉ keys entries) : ∃ entries', tryEmplace key value entries = some entries' := by
  induction entries with
  | nil => exact ⟨_, rfl⟩
  | cons entry entries ih =>
      rw [keys, List.map_cons, List.mem_cons, not_or] at h
      rw [tryEmplace]
      split
      · exact ⟨_, rfl⟩
      · obtain ⟨rest, hrest⟩ := ih h.2
        rw [if_neg h.1, hrest]
        exact ⟨_, rfl⟩

section MapValues

variable {W : Type*}

def mapValues (f : V → W) (entries : List (K × V)) : List (K × W) :=
  entries.map fun entry => (entry.1, f entry.2)

omit [LinearOrder K] in
@[simp] theorem keys_mapValues (f : V → W) (entries : List (K × V)) :
    keys (mapValues f entries) = keys entries := by
  rw [keys, mapValues, List.map_map]
  rfl

theorem sorted_mapValues {f : V → W} {entries : List (K × V)} :
    Sorted (mapValues f entries) ↔ Sorted entries := by
  rw [mapValues, Sorted, Sorted, List.pairwise_map]

/-- The map of the images of some entries is the image of their map. -/
theorem mapValues_sort {f : V → W} {pairs : List (K × V)} {entries : List (K × W)}
    (hnodup : (keys pairs).Nodup) (hperm : entries.Perm (mapValues f pairs))
    (hsorted : Sorted entries) : mapValues f (sort pairs) = entries :=
  (sorted_mapValues.mpr (sort_sorted hnodup)).eq_of_perm hsorted
    (((sort_perm pairs).map _).trans hperm.symm)

end MapValues

end OrderedEntries
