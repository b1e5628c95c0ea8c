import Mathlib.Logic.Basic

/-! Labelled transition systems, their runs, and the two rules by which facts about one step become
facts about every run: an invariant that each step keeps, and a simulation that matches each step. -/

namespace Transition

/-- A system given by its first states and by what a labelled step may do. -/
structure Machine (σ ε : Type*) where
  Init : σ → Prop
  Step : σ → ε → σ → Prop

namespace Machine

variable {σ τ ε : Type*} (M : Machine σ ε)

/-- The state `t` is reached from `s` by steps with these labels, the last label last. -/
inductive Run : σ → List ε → σ → Prop
  | refl (s : σ) : Run s [] s
  | snoc {s t u : σ} {es : List ε} {e : ε} : Run s es t → M.Step t e u → Run s (es ++ [e]) u

/-- The states of the runs whose every step is taken in a state and with a label that `Good` allows. -/
inductive ReachableBy (Good : σ → ε → Prop) : σ → Prop
  | init {s : σ} : M.Init s → ReachableBy Good s
  | step {s t : σ} {e : ε} : ReachableBy Good s → Good s e → M.Step s e t → ReachableBy Good t

/-- The states of all runs. -/
def Reachable (s : σ) : Prop := M.ReachableBy (fun _ _ => True) s

variable {M}

theorem Reachable.init {s : σ} (h : M.Init s) : M.Reachable s := ReachableBy.init h

theorem Reachable.step {s t : σ} {e : ε} (h : M.Reachable s) (hstep : M.Step s e t) :
    M.Reachable t := ReachableBy.step h trivial hstep

/-- A restricted run is a run. -/
theorem ReachableBy.reachable {Good : σ → ε → Prop} {s : σ} (h : M.ReachableBy Good s) :
    M.Reachable s := by
  induction h with
  | init h => exact Reachable.init h
  | step _ _ hstep ih => exact Reachable.step ih hstep

theorem ReachableBy.mono {Good Good' : σ → ε → Prop} (hgood : ∀ s e, Good s e → Good' s e) {s : σ}
    (h : M.ReachableBy Good s) : M.ReachableBy Good' s := by
  induction h with
  | init h => exact ReachableBy.init h
  | step _ hs hstep ih => exact ReachableBy.step ih (hgood _ _ hs) hstep

/-- **Invariant rule.** What holds first and is kept by every allowed step holds in every state. The
step may use what is already known of all reachable states. -/
theorem ReachableBy.invariant {Good : σ → ε → Prop} (I : σ → Prop)
    (hinit : ∀ s, M.Init s → I s)
    (hstep : ∀ s e t, M.Reachable s → I s → Good s e → M.Step s e t → I t)
    {s : σ} (h : M.ReachableBy Good s) : I s := by
  induction h with
  | init h => exact hinit _ h
  | step hs hgood hst ih => exact hstep _ _ _ hs.reachable ih hgood hst

theorem Reachable.invariant (I : σ → Prop) (hinit : ∀ s, M.Init s → I s)
    (hstep : ∀ s e t, I s → M.Step s e t → I t) {s : σ} (h : M.Reachable s) : I s :=
  ReachableBy.invariant I hinit (fun s e t _ hs _ hst => hstep s e t hs hst) h

variable (M) in
/-- The same system, started in this state. -/
def startedAt (s : σ) : Machine σ ε := ⟨fun t => t = s, M.Step⟩

/-- A run that goes on from a reachable state. -/
theorem ReachableBy.reachable_startedAt {Good : σ → ε → Prop} {s t : σ} (hs : M.Reachable s)
    (h : (M.startedAt s).ReachableBy Good t) : M.Reachable t := by
  induction h with
  | init hinit =>
      cases hinit
      exact hs
  | step _ _ hstep ih => exact Reachable.step ih hstep

/-- Two stretches of a run make one. -/
theorem ReachableBy.trans_startedAt {Good : σ → ε → Prop} {s t u : σ}
    (h : (M.startedAt s).ReachableBy Good t) (h' : (M.startedAt t).ReachableBy Good u) :
    (M.startedAt s).ReachableBy Good u := by
  induction h' with
  | init hinit =>
      cases hinit
      exact h
  | step _ hgood hstep ih => exact ReachableBy.step ih hgood hstep

/-- **Stretch rule.** What holds where a stretch of a run starts, and is kept by its steps, holds all along. -/
theorem ReachableBy.invariant_startedAt {Good : σ → ε → Prop} (I : σ → Prop) {s t : σ} (hs : M.Reachable s)
    (hI : I s) (hstep : ∀ u e u', M.Reachable u → I u → Good u e → M.Step u e u' → I u')
    (h : (M.startedAt s).ReachableBy Good t) : I t := by
  induction h with
  | init hinit =>
      cases hinit
      exact hI
  | step hu hgood hst ih => exact hstep _ _ _ (hu.reachable_startedAt hs) ih hgood hst

theorem Run.append {s t u : σ} {es es' : List ε} (h : M.Run s es t) (h' : M.Run t es' u) :
    M.Run s (es ++ es') u := by
  induction h' with
  | refl =>
      rw [List.append_nil]
      exact h
  | snoc _ hstep ih =>
      rw [← List.append_assoc]
      exact .snoc ih hstep

theorem Run.reachable {s t : σ} {es : List ε} (hs : M.Reachable s) (h : M.Run s es t) :
    M.Reachable t := by
  induction h with
  | refl => exact hs
  | snoc _ hstep ih => exact Reachable.step ih hstep

/-- **Simulation rule.** When each step of a related pair is matched, so is each run. -/
theorem Run.simulate (A : Machine τ ε) (R : σ → τ → Prop)
    (hstep : ∀ s e t a, R s a → M.Step s e t → ∃ b, A.Step a e b ∧ R t b)
    {s t : σ} {a : τ} {es : List ε} (h : M.Run s es t) (hR : R s a) :
    ∃ b, A.Run a es b ∧ R t b := by
  induction h with
  | refl => exact ⟨a, Run.refl a, hR⟩
  | snoc _ hst ih =>
      obtain ⟨b, hrun, hb⟩ := ih
      obtain ⟨c, hc, hRc⟩ := hstep _ _ _ _ hb hst
      exact ⟨c, Run.snoc hrun hc, hRc⟩

/-! ### Runs that come to an end -/

variable (M) in
/-- **Progress rule.** When every state that is not final has a step that keeps `I` and lowers the rank, a
final state can be reached. -/
theorem exists_final {Good : σ → ε → Prop} (I final : σ → Prop) (rank : σ → Nat)
    (hstep : ∀ s, I s → ¬ final s → ∃ e t, Good s e ∧ M.Step s e t ∧ I t ∧ rank t < rank s)
    {s : σ} (hs : I s) : ∃ t, (M.startedAt s).ReachableBy Good t ∧ I t ∧ final t := by
  induction hrank : rank s using Nat.strongRecOn generalizing s with
  | ind n ih =>
      subst hrank
      by_cases hfinal : final s
      · exact ⟨s, .init rfl, hs, hfinal⟩
      · obtain ⟨e, t, hgood, ht, hI, hlt⟩ := hstep s hs hfinal
        obtain ⟨u, hreach, hIu, hu⟩ := ih (rank t) hlt hI rfl
        have hfirst : (M.startedAt s).ReachableBy Good t := .step (.init rfl) hgood ht
        exact ⟨u, hfirst.trans_startedAt hreach, hIu, hu⟩

/-- A sequence of states whose rank falls as long as it goes on does not go on for ever. -/
theorem exists_final_index (seq : Nat → σ) (final : σ → Prop) (rank : σ → Nat)
    (hfalls : ∀ n, ¬ final (seq n) → rank (seq (n + 1)) < rank (seq n)) : ∃ n, final (seq n) := by
  refine Classical.byContradiction fun hnever => ?_
  have hrank : ∀ n, rank (seq n) + n ≤ rank (seq 0) := by
    intro n
    induction n with
    | zero => exact Nat.le_refl _
    | succ n ih =>
        have hlt := hfalls n fun hfinal => hnever ⟨n, hfinal⟩
        omega
  have hlast := hrank (rank (seq 0) + 1)
  omega

/-! ### Systems whose steps are computed -/

/-- The state after these events, when each is allowed and can be taken. -/
def replay (allowed : σ → ε → Bool) (step : σ → ε → Option σ) : σ → List ε → Option σ
  | s, [] => some s
  | s, e :: es => if allowed s e then (step s e).bind fun s => replay allowed step s es else none

theorem ReachableBy.replay {Good : σ → ε → Prop} {allowed : σ → ε → Bool} {step : σ → ε → Option σ}
    (hgood : ∀ s e, allowed s e → Good s e) (hstep : ∀ s e t, step s e = some t → M.Step s e t)
    {s t : σ} {es : List ε} (h : M.ReachableBy Good s)
    (hreplay : Machine.replay allowed step s es = some t) : M.ReachableBy Good t := by
  induction es generalizing s with
  | nil =>
      cases hreplay
      exact h
  | cons e es ih =>
      rw [Machine.replay] at hreplay
      split at hreplay
      · rename_i hallowed
        obtain ⟨u, hu, hrest⟩ := Option.bind_eq_some_iff.mp hreplay
        exact ih (.step h (hgood s e hallowed) (hstep s e u hu)) hrest
      · cases hreplay

theorem Run.replay {allowed : σ → ε → Bool} {step : σ → ε → Option σ}
    (hstep : ∀ s e t, step s e = some t → M.Step s e t) {s t : σ} {es : List ε}
    (hreplay : Machine.replay allowed step s es = some t) : M.Run s es t := by
  induction es generalizing s with
  | nil =>
      cases hreplay
      exact .refl _
  | cons e es ih =>
      rw [Machine.replay] at hreplay
      split at hreplay
      · obtain ⟨u, hu, hrest⟩ := Option.bind_eq_some_iff.mp hreplay
        have hfirst : M.Run s [e] u := .snoc (.refl s) (hstep s e u hu)
        exact hfirst.append (ih hrest)
      · cases hreplay

theorem Run.replay_getD {allowed : σ → ε → Bool} {step : σ → ε → Option σ}
    (hstep : ∀ s e t, step s e = some t → M.Step s e t) {s : σ} {es : List ε}
    (h : (Machine.replay allowed step s es).isSome) :
    M.Run s es ((Machine.replay allowed step s es).getD s) := by
  obtain ⟨t, hreplay⟩ := Option.isSome_iff_exists.mp h
  rw [hreplay]
  exact .replay hstep hreplay

/-- Where the events cannot be taken, the state stays. -/
theorem ReachableBy.replay_getD {Good : σ → ε → Prop} {allowed : σ → ε → Bool}
    {step : σ → ε → Option σ} (hgood : ∀ s e, allowed s e → Good s e)
    (hstep : ∀ s e t, step s e = some t → M.Step s e t) {s : σ} (h : M.ReachableBy Good s)
    (es : List ε) : M.ReachableBy Good ((Machine.replay allowed step s es).getD s) := by
  cases hreplay : Machine.replay allowed step s es with
  | none => exact h
  | some t => exact h.replay hgood hstep hreplay

end Machine

end Transition
