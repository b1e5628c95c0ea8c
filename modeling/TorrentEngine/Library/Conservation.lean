import TorrentEngine.Library.Transition
import Mathlib.Data.List.Perm.Basic

/-! What is collected along a run of a system whose steps are computed, and the rule by which a balance of one step
becomes one of every run: what comes in is what goes out and what is still held. -/

namespace Transition

namespace Machine

variable {σ ε α : Type*} {M : Machine σ ε} {step : σ → ε → Option σ}

/-- What `f` tells of each step that these events take, in the order of the steps. -/
def collected (step : σ → ε → Option σ) (f : σ → ε → List α) : σ → List ε → List α
  | _, [] => []
  | s, e :: es =>
      f s e ++
        match step s e with
        | none => []
        | some t => collected step f t es

variable {f : σ → ε → List α} {s t : σ} {e : ε} {es : List ε}

theorem collected_single (f : σ → ε → List α) (s : σ) (e : ε) : collected step f s [e] = f s e := by
  rw [collected]
  cases step s e with
  | none => exact List.append_nil _
  | some t => exact List.append_nil _

theorem collected_cons (h : step s e = some t) :
    collected step f s (e :: es) = f s e ++ collected step f t es := by
  rw [collected, h]

/-- What is told of a run is told of its stretches, one after the other. -/
theorem collected_append (hstep : ∀ s e t, M.Step s e t → step s e = some t) (hrun : M.Run s es t)
    (es' : List ε) :
    collected step f s (es ++ es') = collected step f s es ++ collected step f t es' := by
  induction hrun generalizing es' with
  | refl => rfl
  | snoc hrun hst ih =>
      rw [List.append_assoc, ih, ih, collected_single, List.append_assoc, List.singleton_append,
        collected_cons (hstep _ _ _ hst)]

theorem collected_snoc (hstep : ∀ s e t, M.Step s e t → step s e = some t) (hrun : M.Run s es t) :
    collected step f s (es ++ [e]) = collected step f s es ++ f t e := by
  rw [collected_append hstep hrun, collected_single]

/-- **Conservation rule.** Where each step lets go of what it does not hold on to, of all that it held and was given,
so does every run. What is held is told by a relation, so that it can be seen in any order. -/
theorem Run.conserves {β : Type*} (I : σ → Prop) (Holds : σ → List β → Prop) (given : ε → List β)
    (settled : σ → ε → List α) (item : α → β) (hcomputed : ∀ s e t, M.Step s e t → step s e = some t)
    (hI : ∀ s e t, I s → M.Step s e t → I t)
    (hbalance : ∀ s e t held, I s → Holds s held → M.Step s e t →
      ∃ held', Holds t held' ∧ (held ++ given e).Perm ((settled s e).map item ++ held'))
    (hs : I s) {held : List β} (hheld : Holds s held) (hrun : M.Run s es t) :
    I t ∧ ∃ held', Holds t held' ∧
      (held ++ es.flatMap given).Perm ((collected step settled s es).map item ++ held') := by
  induction hrun with
  | refl =>
      refine ⟨hs, held, hheld, ?_⟩
      rw [List.flatMap_nil, List.append_nil, collected, List.map_nil, List.nil_append]
  | snoc hrun hst ih =>
      obtain ⟨hmid, held', hheld', hperm⟩ := ih
      obtain ⟨held'', hheld'', hlast⟩ := hbalance _ _ _ held' hmid hheld' hst
      refine ⟨hI _ _ _ hmid hst, held'', hheld'', ?_⟩
      rw [List.flatMap_append, List.flatMap_singleton, collected_snoc hcomputed hrun, List.map_append,
        ← List.append_assoc, List.append_assoc (List.map _ _)]
      refine (hperm.append_right _).trans ?_
      rw [List.append_assoc]
      exact hlast.append_left _

end Machine

end Transition
