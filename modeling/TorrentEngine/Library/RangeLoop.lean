import TorrentEngine.Library.SwapRemoval

/-! A range loop over a vector from which its body removes elements. How many turns it takes is fixed at the
start, and each turn reads the next cell, whether or not the vector still has it. -/

namespace SwapRemoval

variable {σ α : Type*}

/-- A turn: the cell it reads, the element there, and the states around it. -/
structure Visit (σ α : Type*) where
  index : Nat
  item : α
  before : σ
  after : σ

namespace Visit

/-- The vector still has the cell. -/
def InBounds (space : σ → List α) (visit : Visit σ α) : Prop :=
  visit.index < (space visit.before).length

def Removes (space : σ → List α) (visit : Visit σ α) : Prop :=
  (space visit.after).length < (space visit.before).length

instance (space : σ → List α) : DecidablePred (InBounds space) := fun _ => Nat.decLt _ _

instance (space : σ → List α) : DecidablePred (Removes space) := fun _ => Nat.decLt _ _

end Visit

/-- The turns from cell `i` on. -/
def visits (space : σ → List α) (body : σ → α → σ) :
    (turns i : Nat) → (cells : List α) → σ → List (Visit σ α)
  | 0, _, _, _ => []
  | turns + 1, i, cells, s =>
      match cells[i]? with
      | none => visits space body turns (i + 1) (cellsAfter (space s) cells) s
      | some x =>
          ⟨i, x, s, body s x⟩ ::
            visits space body turns (i + 1) (cellsAfter (space (body s x)) cells) (body s x)

/-- The elements for which a turn removed one, in the order of the turns. -/
def handled (space : σ → List α) (turns : List (Visit σ α)) : List α :=
  (turns.filter fun visit => visit.Removes space).map Visit.item

/-- The body does nothing with an element that is not selected, and shortens the vector by one otherwise. -/
structure Shortens (space : σ → List α) (body : σ → α → σ) (sel : σ → α → Prop) : Prop where
  skip : ∀ s x, ¬ sel s x → body s x = s
  shorten : ∀ s x, sel s x → (space (body s x)).length = (space s).length - 1

variable {space : σ → List α} {body : σ → α → σ} {sel : σ → α → Prop} {turns i : Nat} {cells : List α}
  {s : σ} {x : α}

theorem visits_succ (hx : cells[i]? = some x) :
    visits space body (turns + 1) i cells s =
      ⟨i, x, s, body s x⟩ ::
        visits space body turns (i + 1) (cellsAfter (space (body s x)) cells) (body s x) := by
  rw [visits, hx]

theorem handled_cons (visit : Visit σ α) (rest : List (Visit σ α)) :
    handled space (visit :: rest) =
      if visit.Removes space then visit.item :: handled space rest else handled space rest := by
  rw [handled, List.filter_cons]
  simp only [decide_eq_true_eq]
  split
  · rfl
  · rfl

theorem length_cellsAfter {now : List α} (h : now.length ≤ cells.length) :
    (cellsAfter now cells).length = cells.length := by
  rw [cellsAfter, List.length_append, List.length_drop]
  omega

theorem Shortens.length_le (h : Shortens space body sel) (s : σ) (x : α) :
    (space (body s x)).length ≤ (space s).length := by
  by_cases hsel : sel s x
  · rw [h.shorten s x hsel]
    exact Nat.sub_le _ _
  · exact Nat.le_of_eq (congrArg (fun s => (space s).length) (h.skip s x hsel))

/-- Once the vector is shorter than the cells of the loop, the last turn reads past its end. -/
theorem Shortens.overrun (h : Shortens space body sel) (hcells : cells.length = i + turns)
    (hshort : (space s).length < cells.length) (hturns : 0 < turns) :
    ∃ visit ∈ visits space body turns i cells s, ¬ visit.InBounds space := by
  induction turns generalizing i cells s with
  | zero => exact absurd hturns (Nat.lt_irrefl 0)
  | succ turns ih =>
      obtain ⟨x, hx⟩ : ∃ x, cells[i]? = some x := ⟨_, List.getElem?_eq_getElem (by omega)⟩
      rw [visits_succ hx]
      have hle := h.length_le s x
      have hlength := length_cellsAfter (Nat.le_trans hle (Nat.le_of_lt hshort))
      cases turns with
      | zero =>
          refine ⟨_, List.mem_cons_self, ?_⟩
          rw [Visit.InBounds]
          dsimp only
          omega
      | succ turns =>
          have hrest : cells.length = (i + 1) + (turns + 1) := by omega
          obtain ⟨visit, hmem, hover⟩ :=
            ih (hlength.trans hrest) (hlength ▸ Nat.lt_of_le_of_lt hle hshort) (Nat.succ_pos turns)
          exact ⟨visit, List.mem_cons_of_mem _ hmem, hover⟩

/-- A turn of a loop that has not removed anything so far. -/
theorem visits_drop (body : σ → α → σ) (hspace : (space s).length = i + (turns + 1)) :
    ∃ x, (space s).drop i = x :: (space s).drop (i + 1) ∧
      visits space body (turns + 1) i (space s) s =
        ⟨i, x, s, body s x⟩ ::
          visits space body turns (i + 1) (cellsAfter (space (body s x)) (space s)) (body s x) :=
  ⟨_, List.drop_eq_getElem_cons (by omega), visits_succ (List.getElem?_eq_getElem _)⟩

theorem Shortens.skip_visits (h : Shortens space body sel) (hsel : ¬ sel s x) :
    visits space body turns (i + 1) (cellsAfter (space (body s x)) (space s)) (body s x) =
      visits space body turns (i + 1) (space s) s := by
  rw [h.skip s x hsel, cellsAfter_eq (List.prefix_refl _)]

/-- **Bounds.** The loop stays within the vector exactly when nothing but the last element is selected. -/
theorem Shortens.inBounds_iff (h : Shortens space body sel) (hspace : (space s).length = i + turns) :
    (∀ visit ∈ visits space body turns i (space s) s, visit.InBounds space) ↔
      ∀ x ∈ ((space s).drop i).dropLast, ¬ sel s x := by
  induction turns generalizing i with
  | zero =>
      rw [List.drop_of_length_le (by omega)]
      exact ⟨fun _ _ hx => absurd hx List.not_mem_nil, fun _ _ hv => absurd hv List.not_mem_nil⟩
  | succ turns ih =>
      obtain ⟨x, hdrop, hvisits⟩ := visits_drop body hspace
      have hhead : Visit.InBounds space ⟨i, x, s, body s x⟩ := by
        rw [Visit.InBounds]
        dsimp only
        omega
      rw [hvisits, List.forall_mem_cons, and_iff_right hhead, hdrop]
      cases turns with
      | zero =>
          rw [List.drop_of_length_le (by omega)]
          exact ⟨fun _ _ hx => absurd hx List.not_mem_nil, fun _ _ hv => absurd hv List.not_mem_nil⟩
      | succ turns =>
          have hmore : (space s).drop (i + 1) ≠ [] :=
            List.ne_nil_of_length_pos (by rw [List.length_drop]; omega)
          rw [List.dropLast_cons_of_ne_nil hmore, List.forall_mem_cons]
          by_cases hsel : sel s x
          · have hlength := h.shorten s x hsel
            refine iff_of_false (fun hall => ?_) fun hfree => hfree.1 hsel
            have hcells : (cellsAfter (space (body s x)) (space s)).length = (i + 1) + (turns + 1) :=
              (length_cellsAfter (h.length_le s x)).trans (by omega)
            have hshort : (space (body s x)).length <
                (cellsAfter (space (body s x)) (space s)).length := by omega
            obtain ⟨visit, hmem, hover⟩ := h.overrun hcells hshort (Nat.succ_pos turns)
            exact hover (hall visit hmem)
          · rw [h.skip_visits hsel, and_iff_right hsel]
            exact ih (by omega)

theorem Shortens.removes_iff (h : Shortens space body sel) (i : Nat) (hpos : 0 < (space s).length) :
    Visit.Removes space ⟨i, x, s, body s x⟩ ↔ sel s x := by
  rw [Visit.Removes]
  dsimp only
  by_cases hsel : sel s x
  · rw [h.shorten s x hsel]
    exact iff_of_true (Nat.sub_lt hpos Nat.one_pos) hsel
  · rw [h.skip s x hsel]
    exact iff_of_false (Nat.lt_irrefl _) hsel

theorem handled_visit (h : Shortens space body sel) [DecidablePred (sel s)] (i : Nat)
    (hpos : 0 < (space s).length) (rest : List (Visit σ α)) :
    handled space (⟨i, x, s, body s x⟩ :: rest) =
      if sel s x then x :: handled space rest else handled space rest := by
  rw [handled_cons]
  simp only [h.removes_iff i hpos]

/-- Where nothing but the last element is selected, the loop handles what is selected. -/
theorem Shortens.handled_of_free (h : Shortens space body sel) [DecidablePred (sel s)]
    (hspace : (space s).length = i + turns) (hfree : ∀ x ∈ ((space s).drop i).dropLast, ¬ sel s x) :
    handled space (visits space body turns i (space s) s) = ((space s).drop i).filter (sel s) := by
  induction turns generalizing i with
  | zero =>
      rw [List.drop_of_length_le (by omega)]
      rfl
  | succ turns ih =>
      obtain ⟨x, hdrop, hvisits⟩ := visits_drop body hspace
      rw [hvisits, handled_visit h i (by omega), hdrop, List.filter_cons]
      simp only [decide_eq_true_eq]
      cases turns with
      | zero =>
          rw [List.drop_of_length_le (by omega)]
          rfl
      | succ turns =>
          have hmore : (space s).drop (i + 1) ≠ [] :=
            List.ne_nil_of_length_pos (by rw [List.length_drop]; omega)
          rw [hdrop, List.dropLast_cons_of_ne_nil hmore, List.forall_mem_cons] at hfree
          rw [if_neg hfree.1, if_neg hfree.1, h.skip_visits hfree.1]
          exact ih (by omega) hfree.2

/-- Where an element that is selected is removed itself, and no other element comes to be selected or
ceases to be. -/
structure Detaches (space : σ → List α) (body : σ → α → σ) (sel : σ → α → Prop) (Inv : σ → Prop) :
    Prop where
  nodup : ∀ s, Inv s → (space s).Nodup
  keep : ∀ s x, Inv s → x ∈ space s → Inv (body s x)
  move : ∀ s x, Inv s → x ∈ space s → sel s x →
    ∃ k, (space s)[k]? = some x ∧ space (body s x) = removeAt (space s) k
  apart : ∀ s x y, Inv s → x ∈ space s → y ≠ x → (sel (body s x) y ↔ sel s y)

variable {Inv : σ → Prop} {first : List α}

theorem Sweep.turn (h : Shortens space body sel) (hd : Detaches space body sel Inv) (hinv : Inv s)
    (hfirst : first.Nodup) (hsweep : Sweep first (space s) cells i) (hx : cells[i]? = some x)
    (hmem : x ∈ space s) :
    Sweep first (space (body s x)) (cellsAfter (space (body s x)) cells) (i + 1) := by
  by_cases hsel : sel s x
  · obtain ⟨k, hk, hmoved⟩ := hd.move s x hinv hmem hsel
    rw [hmoved]
    exact hsweep.remove hfirst (hd.nodup s hinv) hx hk
  · rw [h.skip s x hsel]
    exact hsweep.keep

/-- **Once each.** The cells past the end still hold the elements that were there at first, and so the loop
handles what was selected at first, in order, whatever it has removed before. -/
theorem Shortens.handled_visits (h : Shortens space body sel) (hd : Detaches space body sel Inv)
    (hinv : Inv s) (hfirst : first.Nodup) (hsweep : Sweep first (space s) cells i)
    (hturns : i + turns = first.length) {p : α → Prop} [DecidablePred p]
    (hsame : ∀ j x, i ≤ j → first[j]? = some x → (sel s x ↔ p x)) :
    handled space (visits space body turns i cells s) = (first.drop i).filter p := by
  induction turns generalizing i cells s with
  | zero =>
      rw [List.drop_of_length_le (by omega)]
      rfl
  | succ turns ih =>
      obtain ⟨x, hat⟩ : ∃ x, first[i]? = some x := ⟨_, List.getElem?_eq_getElem (by omega)⟩
      have hx : cells[i]? = some x := (hsweep.ahead i (Nat.le_refl i)).trans hat
      obtain ⟨-, k, -, hk⟩ := hsweep.current hx
      have hmem : x ∈ space s := List.mem_of_getElem? hk
      have hdrop : first.drop i = x :: first.drop (i + 1) := by
        obtain ⟨hlt, rfl⟩ := List.getElem?_eq_some_iff.mp hat
        exact List.drop_eq_getElem_cons hlt
      have hrest := ih (hd.keep s x hinv hmem) (hsweep.turn h hd hinv hfirst hx hmem) (by omega)
        fun j y hj hy => by
          have hne : y ≠ x := by
            rintro rfl
            obtain ⟨hlt, -⟩ := List.getElem?_eq_some_iff.mp hy
            exact List.nodup_iff_getElem?_ne_getElem?.mp hfirst i j hj hlt (hat.trans hy.symm)
          rw [hd.apart s x y hinv hmem hne]
          exact hsame j y (by omega) hy
      rw [visits_succ hx, handled_cons, hrest, hdrop, List.filter_cons]
      simp only [h.removes_iff i (List.length_pos_of_mem hmem), hsame i x (Nat.le_refl i) hat,
        decide_eq_true_eq]

end SwapRemoval
