import TorrentEngine.Library.Transition
import Mathlib.Data.List.Basic

/-! First-in first-out queues with a bound on their length, as a transition system: what was put in,
in order, is what was taken out followed by what is still inside. -/

open Transition

/-- A queue of at most `n` values, the oldest first. -/
structure BoundedFifo (α : Type*) (n : Nat) where
  items : List α
  length_le : items.length ≤ n

namespace BoundedFifo

variable {α : Type*} {n : Nat}

inductive Event (α : Type*) where
  | enqueue (values : List α)
  | dequeue (values : List α)
  | clear

def empty : BoundedFifo α n := ⟨[], Nat.zero_le n⟩

/-- The bound is part of the state, so that an enqueue past it is no step. -/
def Step (q : BoundedFifo α n) : Event α → BoundedFifo α n → Prop
  | .enqueue values, q' => q'.items = q.items ++ values
  | .dequeue values, q' => q.items = values ++ q'.items
  | .clear, q' => q'.items = []

def machine (α : Type*) (n : Nat) : Machine (BoundedFifo α n) (Event α) where
  Init q := q.items = []
  Step := Step

def enqueued : List (Event α) → List α
  | [] => []
  | .enqueue values :: es => values ++ enqueued es
  | _ :: es => enqueued es

def dequeued : List (Event α) → List α
  | [] => []
  | .dequeue values :: es => values ++ dequeued es
  | _ :: es => dequeued es

theorem enqueued_append (es fs : List (Event α)) :
    enqueued (es ++ fs) = enqueued es ++ enqueued fs := by
  induction es with
  | nil => rfl
  | cons e es ih =>
      cases e <;> simp only [List.cons_append, enqueued, ih, List.append_assoc]

theorem dequeued_append (es fs : List (Event α)) :
    dequeued (es ++ fs) = dequeued es ++ dequeued fs := by
  induction es with
  | nil => rfl
  | cons e es ih =>
      cases e <;> simp only [List.cons_append, dequeued, ih, List.append_assoc]

/-- **Nothing is lost, repeated or reordered** in a run that never clears the queue. -/
theorem conserved {q r : BoundedFifo α n} {es : List (Event α)}
    (h : (machine α n).Run q es r) (hclear : Event.clear ∉ es) :
    q.items ++ enqueued es = dequeued es ++ r.items := by
  induction h with
  | refl => simp only [enqueued, dequeued, List.append_nil, List.nil_append]
  | @snoc t u es e _ hstep ih =>
      have hes := ih (fun h => hclear (List.mem_append_left _ h))
      rw [enqueued_append, dequeued_append, ← List.append_assoc, hes]
      cases e with
      | enqueue values =>
          have hu : u.items = t.items ++ values := hstep
          simp only [enqueued, dequeued, List.append_nil, hu, List.append_assoc]
      | dequeue values =>
          have ht : t.items = values ++ u.items := hstep
          simp only [enqueued, dequeued, List.append_nil, ht, List.append_assoc]
      | clear => exact absurd (List.mem_append_right _ List.mem_cons_self) hclear

end BoundedFifo
