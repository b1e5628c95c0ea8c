import Mathlib.Data.List.Induction

/-! Iterated block hashes: a compression function folded over the whole blocks of a message, and the
machine that takes the message one symbol after another and keeps the block that is not yet full. -/

namespace BlockHash

variable {σ β : Type*}

/-- The chaining value and the symbols of the block begun. -/
structure Absorbing (σ β : Type*) where
  chain : σ
  pending : List β

/-- Block `i` of a message cut into blocks of `n` symbols. -/
def block (n : Nat) (message : List β) (i : Nat) : List β := (message.drop (i * n)).take n

/-- The compression function over the first `k` blocks. -/
def iterate (n : Nat) (compress : σ → List β → σ) (s : σ) (message : List β) : Nat → σ
  | 0 => s
  | k + 1 => compress (iterate n compress s message k) (block n message k)

/-- The chaining value after all whole blocks. -/
def digest (n : Nat) (compress : σ → List β → σ) (s : σ) (message : List β) : σ :=
  iterate n compress s message (message.length / n)

/-- One more symbol: a block that becomes full is compressed. -/
def push (n : Nat) (compress : σ → List β → σ) (stream : Absorbing σ β) (b : β) : Absorbing σ β :=
  if stream.pending.length + 1 = n then ⟨compress stream.chain (stream.pending ++ [b]), []⟩
  else ⟨stream.chain, stream.pending ++ [b]⟩

/-- What the stream holds after a message. -/
def absorbed (n : Nat) (compress : σ → List β → σ) (s : σ) (message : List β) : Absorbing σ β :=
  ⟨digest n compress s message, message.drop (message.length / n * n)⟩

variable {n : Nat} {compress : σ → List β → σ} {s : σ}

theorem block_append {message : List β} {i : Nat} (hi : (i + 1) * n ≤ message.length)
    (rest : List β) : block n (message ++ rest) i = block n message i := by
  have hstart : i * n + n ≤ message.length := by rwa [Nat.succ_mul] at hi
  rw [block, block, List.drop_append_of_le_length (by omega),
    List.take_append_of_le_length (by rw [List.length_drop]; omega)]

theorem iterate_append {message : List β} (rest : List β) :
    ∀ k, k * n ≤ message.length →
      iterate n compress s (message ++ rest) k = iterate n compress s message k := by
  intro k
  induction k with
  | zero => exact fun _ => rfl
  | succ k ih =>
      intro hk
      have hprev : k * n ≤ message.length := Nat.le_trans (Nat.mul_le_mul_right n (Nat.le_succ k)) hk
      rw [iterate, iterate, ih hprev, block_append hk]

theorem absorbed_nil : absorbed n compress s [] = ⟨s, []⟩ := by
  simp only [absorbed, digest, List.length_nil, Nat.zero_div, iterate, List.drop_nil]

theorem pending_length (message : List β) :
    (absorbed n compress s message).pending.length = message.length % n := by
  have h := Nat.div_add_mod' message.length n
  rw [absorbed, List.length_drop]
  omega

/-- The block begun and the symbols before it make up the message. -/
theorem pending_append (message : List β) (b : β) :
    (message ++ [b]).drop (message.length / n * n) =
      (absorbed n compress s message).pending ++ [b] := by
  have hle : message.length / n * n ≤ message.length := Nat.div_mul_le_self _ _
  rw [List.drop_append_of_le_length hle, absorbed]

theorem push_absorbed (hn : 0 < n) (message : List β) (b : β) :
    push n compress (absorbed n compress s message) b = absorbed n compress s (message ++ [b]) := by
  have hlength : (message ++ [b]).length = message.length + 1 := List.length_append
  have hrest : message.length % n < n := Nat.mod_lt _ hn
  have hsplit := Nat.div_add_mod' message.length n
  have hpending := @pending_append _ _ n compress s message b
  rw [push, pending_length, absorbed, absorbed, digest, digest, hlength]
  split
  case isTrue hfull =>
    have hblocks : (message.length + 1) / n = message.length / n + 1 :=
      Nat.div_eq_of_lt_le (by rw [Nat.succ_mul]; omega) (by rw [Nat.succ_mul, Nat.succ_mul]; omega)
    have hwhole : (message.length / n + 1) * n = (message ++ [b]).length := by
      rw [Nat.succ_mul, hlength]
      omega
    have hblock : block n (message ++ [b]) (message.length / n) =
        message.drop (message.length / n * n) ++ [b] := by
      rw [block, hpending, absorbed]
      apply List.take_of_length_le
      rw [List.length_append, List.length_drop, List.length_singleton]
      omega
    rw [hblocks, hwhole, List.drop_length, iterate, iterate_append [b] _ (by omega), hblock]
  case isFalse hpartial =>
    have hblocks : (message.length + 1) / n = message.length / n :=
      Nat.div_eq_of_lt_le (by omega) (by rw [Nat.succ_mul]; omega)
    rw [hblocks, iterate_append [b] _ (by omega), hpending, absorbed]

/-- A message pushed symbol by symbol leaves the chaining value of its whole blocks, and the rest pending. -/
theorem foldl_push (hn : 0 < n) (message : List β) :
    message.foldl (push n compress) ⟨s, []⟩ = absorbed n compress s message := by
  induction message using List.reverseRec with
  | nil => rw [absorbed_nil, List.foldl_nil]
  | append_singleton message b ih =>
      rw [List.foldl_append, ih, List.foldl_cons, List.foldl_nil, push_absorbed hn]

end BlockHash
