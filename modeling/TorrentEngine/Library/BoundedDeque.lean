import Mathlib.Data.List.Basic

/-! Double-ended queues with a bound on their length. A push on a full queue drops the oldest value. An
implementation answers a sequence of operations as the queue does when each of its operations does. -/

namespace BoundedDeque

variable {α σ τ : Type*}

inductive Op (α : Type*) where
  | push (v : α)
  | stalePop
  | freshPop

/-- A push of a queue of at most `n` values, the oldest first. -/
def push (n : Nat) (items : List α) (v : α) : List α :=
  if items.length < n then items ++ [v] else items.tail ++ [v]

/-- The answer to an operation, and the queue after it. A pop that fails answers nothing. -/
def step (n : Nat) (items : List α) : Op α → Option α × List α
  | .push v => (none, push n items v)
  | .stalePop => (items.head?, items.tail)
  | .freshPop => (items.getLast?, items.dropLast)

/-- The answers to a sequence of operations, and the state after it. -/
def run (step : σ → Op α → Option α × σ) : σ → List (Op α) → List (Option α) × σ
  | s, [] => ([], s)
  | s, op :: ops =>
      let answer := step s op
      let rest := run step answer.2 ops
      (answer.1 :: rest.1, rest.2)

theorem length_push {n : Nat} (hn : 0 < n) {items : List α} (h : items.length ≤ n) (v : α) :
    (push n items v).length ≤ n := by
  rw [push]
  split
  · rw [List.length_append, List.length_singleton]
    omega
  · rw [List.length_append, List.length_tail, List.length_singleton]
    omega

/-- **Simulation rule.** Related states that give the same answers to every operation, and stay related, give
the same answers to every sequence of operations. -/
theorem run_simulate {stepσ : σ → Op α → Option α × σ} {stepτ : τ → Op α → Option α × τ}
    (R : σ → τ → Prop)
    (hstep : ∀ s t op, R s t → (stepσ s op).1 = (stepτ t op).1 ∧ R (stepσ s op).2 (stepτ t op).2)
    {s : σ} {t : τ} (h : R s t) (ops : List (Op α)) :
    (run stepσ s ops).1 = (run stepτ t ops).1 ∧ R (run stepσ s ops).2 (run stepτ t ops).2 := by
  induction ops generalizing s t with
  | nil => exact ⟨rfl, h⟩
  | cons op ops ih =>
      obtain ⟨hanswer, hnext⟩ := hstep s t op h
      obtain ⟨hanswers, hlast⟩ := ih hnext
      simp only [run]
      rw [hanswer, hanswers]
      exact ⟨rfl, hlast⟩

end BoundedDeque
