import TorrentEngine.Bytes
import TorrentEngine.Library.BoundedFifo
import TorrentEngine.Library.CyclicCells

/-! `io_ring_buffer<N>`: the byte ring that sends and receives work on. Its storage is read and
written through at most two iovecs, which the two `prepare` functions hand out and the two `commit`
functions account for. -/

open Transition CyclicCells

namespace TorrentEngine

/-- An `iovec` into the ring's storage: the offset of its first byte and its length. A null iovec has
length zero, and its base is never read. -/
structure Iovec where
  base : Nat
  len : Nat
  deriving DecidableEq, Repr

namespace Iovec

def null : Iovec := ⟨0, 0⟩

def cells (v : Iovec) : List Nat := List.range' v.base v.len

end Iovec

/-- `prepare_t`: how many of the two iovecs are in use, and both of them. -/
structure Prepare where
  preparedIovecs : Nat
  first : Iovec
  second : Iovec
  deriving DecidableEq, Repr

namespace Prepare

def preparedBytes (p : Prepare) : Nat := p.first.len + p.second.len

def empty (p : Prepare) : Bool := p.preparedIovecs == 0

def iovecs (p : Prepare) : List Iovec := [p.first, p.second].take p.preparedIovecs

/-- The storage offsets the iovecs name, in the order a scatter or gather visits them. -/
def cells (p : Prepare) : List Nat := p.iovecs.flatMap Iovec.cells

end Prepare

/-- `std::has_single_bit`: the number is a power of two. -/
def hasSingleBit (n : Nat) : Bool := 2 ^ n.log2 == n

structure IoRingBuffer (N : Nat) where
  read : Nat
  write : Nat
  readable : Nat
  buffer : Nat → Byte

namespace IoRingBuffer

variable {N : Nat}

/-- The state a ring is constructed in; its storage is not initialised. -/
def initial (N : Nat) (storage : Nat → Byte) : IoRingBuffer N := ⟨0, 0, 0, storage⟩

def mask (N idx : Nat) : Nat := if hasSingleBit N then idx &&& (N - 1) else idx % N

def empty (b : IoRingBuffer N) : Bool := b.readable == 0

def full (b : IoRingBuffer N) : Bool := b.readable == N

def rAvailable (b : IoRingBuffer N) : Nat := b.readable

def wAvailable (b : IoRingBuffer N) : Nat := N - b.readable

def prepareRead (b : IoRingBuffer N) : Prepare :=
  if b.empty then ⟨0, .null, .null⟩
  else if b.read < b.write ∨ (b.full = true ∧ b.read = 0) then ⟨1, ⟨b.read, b.readable⟩, .null⟩
  else ⟨2, ⟨b.read, N - b.read⟩, ⟨0, b.write⟩⟩

def prepareWrite (b : IoRingBuffer N) : Prepare :=
  if b.full then ⟨0, .null, .null⟩
  else if b.write < b.read ∨ (b.empty = true ∧ b.write = 0) then ⟨1, ⟨b.write, b.wAvailable⟩, .null⟩
  else ⟨2, ⟨b.write, N - b.write⟩, ⟨0, b.read⟩⟩

def commitRead (b : IoRingBuffer N) (bytes : Nat) : IoRingBuffer N :=
  if bytes = 0 then b
  else { b with read := mask N (b.read + bytes), readable := b.readable - bytes }

def commitWrite (b : IoRingBuffer N) (bytes : Nat) : IoRingBuffer N :=
  if bytes = 0 then b
  else { b with write := mask N (b.write + bytes), readable := b.readable + bytes }

def reset (b : IoRingBuffer N) : IoRingBuffer N := { b with read := 0, write := 0, readable := 0 }

/-- What the iovecs show, read one after the other. -/
def gather (b : IoRingBuffer N) (p : Prepare) : List Byte := p.cells.map b.buffer

/-- The storage after bytes have been copied into the iovecs, one after the other. -/
def scatter (b : IoRingBuffer N) (p : Prepare) (bytes : List Byte) : IoRingBuffer N :=
  { b with buffer := store b.buffer p.cells bytes }

/-! ### The geometry of a reachable ring -/

theorem mask_eq_mod (N idx : Nat) : mask N idx = idx % N := by
  unfold mask
  split
  · rename_i hbit
    have hpow : 2 ^ N.log2 = N := beq_iff_eq.mp hbit
    rw [← hpow, Nat.and_two_pow_sub_one_eq_mod]
  · rfl

/-- Both indices are cells of the ring, and the write index is the read index moved on by the number
of readable bytes. -/
structure WellFormed (b : IoRingBuffer N) : Prop where
  read_lt : b.read < N
  readable_le : b.readable ≤ N
  write_eq : b.write = (b.read + b.readable) % N

/-- The queued bytes, the oldest first. -/
def contents (b : IoRingBuffer N) : List Byte := (cells N b.read b.readable).map b.buffer

@[simp] theorem length_contents (b : IoRingBuffer N) : b.contents.length = b.readable := by
  simp [contents]

theorem initial_wellFormed (hN : 0 < N) (storage : Nat → Byte) :
    (initial N storage).WellFormed where
  read_lt := hN
  readable_le := Nat.zero_le N
  write_eq := (Nat.zero_mod N).symm

namespace WellFormed

variable {b : IoRingBuffer N}

theorem write_lt (h : b.WellFormed) : b.write < N := by
  rw [h.write_eq]
  exact Nat.mod_lt _ (Nat.zero_lt_of_lt h.read_lt)

/-- The write index, with the wrap written out. -/
theorem write_cases (h : b.WellFormed) :
    (b.read + b.readable < N ∧ b.write = b.read + b.readable) ∨
      (N ≤ b.read + b.readable ∧ b.write = b.read + b.readable - N) := by
  have hread := h.read_lt
  have hreadable := h.readable_le
  rw [h.write_eq]
  by_cases hwrap : b.read + b.readable < N
  · exact Or.inl ⟨hwrap, Nat.mod_eq_of_lt hwrap⟩
  · refine Or.inr ⟨by omega, ?_⟩
    rw [Nat.mod_eq_sub_mod (by omega), Nat.mod_eq_of_lt (by omega)]

theorem cells_write (h : b.WellFormed) (len : Nat) :
    cells N b.write len = cells N (b.read + b.readable) len := by
  rw [h.write_eq, cells_mod]

/-- `prepare_read` names the readable cells, in the order of the queue. -/
theorem prepareRead_cells (h : b.WellFormed) :
    b.prepareRead.cells = cells N b.read b.readable := by
  have hread := h.read_lt
  have hreadable := h.readable_le
  unfold prepareRead
  split
  · rename_i hempty
    have hzero : b.readable = 0 := beq_iff_eq.mp hempty
    rw [hzero]
    rfl
  · rename_i hempty
    have hpos : b.readable ≠ 0 := fun hzero => hempty (beq_iff_eq.mpr hzero)
    split
    · rename_i hone
      have hend : b.read + b.readable ≤ N := by
        rcases hone with hlt | ⟨hfull, hzero⟩
        · rcases h.write_cases with ⟨hsmall, _⟩ | ⟨_, hwrite⟩ <;> omega
        · omega
      rw [cells_eq_range' hend]
      simp [Prepare.cells, Prepare.iovecs, Iovec.cells]
    · rename_i htwo
      have hle : b.write ≤ b.read := Nat.le_of_not_lt fun hlt => htwo (Or.inl hlt)
      rcases h.write_cases with ⟨_, hwrite⟩ | ⟨hend, hwrite⟩
      · omega
      · rw [cells_eq_wrap (Nat.le_of_lt hread) hend hreadable]
        simp [Prepare.cells, Prepare.iovecs, Iovec.cells, hwrite]

/-- `prepare_write` names the free cells, in the order in which the queue will reach them. -/
theorem prepareWrite_cells (h : b.WellFormed) :
    b.prepareWrite.cells = cells N (b.read + b.readable) (N - b.readable) := by
  have hread := h.read_lt
  have hreadable := h.readable_le
  have hwritelt := h.write_lt
  rw [← h.cells_write]
  unfold prepareWrite
  split
  · rename_i hfull
    have heq : b.readable = N := beq_iff_eq.mp hfull
    rw [heq, Nat.sub_self]
    rfl
  · rename_i hfull
    have hne : b.readable ≠ N := fun heq => hfull (beq_iff_eq.mpr heq)
    split
    · rename_i hone
      have hend : b.write + (N - b.readable) ≤ N := by
        rcases hone with hlt | ⟨hempty, hzero⟩
        · rcases h.write_cases with ⟨_, hwrite⟩ | ⟨_, hwrite⟩ <;> omega
        · omega
      rw [cells_eq_range' hend]
      simp [Prepare.cells, Prepare.iovecs, Iovec.cells, wAvailable]
    · rename_i htwo
      have hle : b.read ≤ b.write := Nat.le_of_not_lt fun hlt => htwo (Or.inl hlt)
      rcases h.write_cases with ⟨_, hwrite⟩ | ⟨_, hwrite⟩
      · have hlast : b.write + (N - b.readable) - N = b.read := by omega
        rw [cells_eq_wrap (Nat.le_of_lt hwritelt) (by omega) (Nat.sub_le _ _), hlast]
        simp [Prepare.cells, Prepare.iovecs, Iovec.cells]
      · omega

/-- **The two prepared runs go once around the ring**: the readable cells, then the free ones. -/
theorem prepared_turn (h : b.WellFormed) :
    b.prepareRead.cells ++ b.prepareWrite.cells = cells N b.read N := by
  rw [h.prepareRead_cells, h.prepareWrite_cells, ← cells_add, Nat.add_sub_cancel' h.readable_le]

theorem gather_prepareRead (h : b.WellFormed) : b.gather b.prepareRead = b.contents := by
  rw [gather, h.prepareRead_cells, contents]

end WellFormed

/-! ### What the operations do to the queue -/

theorem preparedBytes_prepareRead_cells (b : IoRingBuffer N) :
    b.prepareRead.preparedBytes = b.prepareRead.cells.length := by
  unfold prepareRead
  split
  · rfl
  · split <;> simp [Prepare.preparedBytes, Prepare.cells, Prepare.iovecs, Iovec.cells, Iovec.null]

theorem preparedBytes_prepareWrite_cells (b : IoRingBuffer N) :
    b.prepareWrite.preparedBytes = b.prepareWrite.cells.length := by
  unfold prepareWrite
  split
  · rfl
  · split <;> simp [Prepare.preparedBytes, Prepare.cells, Prepare.iovecs, Iovec.cells, Iovec.null]

theorem contents_commitRead (b : IoRingBuffer N) {k : Nat} (hk : k ≤ b.readable) :
    (b.commitRead k).contents = b.contents.drop k := by
  obtain ⟨rest, hrest⟩ := Nat.exists_eq_add_of_le hk
  unfold IoRingBuffer.commitRead
  split
  · rename_i hzero
    rw [hzero, List.drop_zero]
  · simp only [contents, mask_eq_mod, cells_mod]
    rw [hrest, Nat.add_sub_cancel_left, cells_add, List.map_append,
      List.drop_left' (by rw [List.length_map, length_cells])]

/-- Committing bytes already copied behind the queue appends what the cells hold. -/
theorem contents_commitWrite (b : IoRingBuffer N) (k : Nat) :
    (b.commitWrite k).contents =
      b.contents ++ (cells N (b.read + b.readable) k).map b.buffer := by
  unfold IoRingBuffer.commitWrite
  split
  · rename_i hzero
    rw [hzero, cells_zero, List.map_nil, List.append_nil]
  · simp only [contents, cells_add, List.map_append]

namespace WellFormed

variable {b : IoRingBuffer N}

theorem preparedBytes_prepareRead (h : b.WellFormed) :
    b.prepareRead.preparedBytes = b.readable := by
  rw [preparedBytes_prepareRead_cells, h.prepareRead_cells, length_cells]

theorem preparedBytes_prepareWrite (h : b.WellFormed) :
    b.prepareWrite.preparedBytes = N - b.readable := by
  rw [preparedBytes_prepareWrite_cells, h.prepareWrite_cells, length_cells]

theorem commitRead (h : b.WellFormed) {k : Nat} (hk : k ≤ b.readable) :
    (b.commitRead k).WellFormed := by
  unfold IoRingBuffer.commitRead
  split
  · exact h
  · refine ⟨?_, Nat.le_trans (Nat.sub_le _ _) h.readable_le, ?_⟩
    · rw [mask_eq_mod]
      exact Nat.mod_lt _ (Nat.zero_lt_of_lt h.read_lt)
    · have hsum : b.read + k + (b.readable - k) = b.read + b.readable := by omega
      rw [mask_eq_mod, Nat.mod_add_mod, hsum]
      exact h.write_eq

theorem commitWrite (h : b.WellFormed) {k : Nat} (hk : k ≤ N - b.readable) :
    (b.commitWrite k).WellFormed := by
  have hle := h.readable_le
  unfold IoRingBuffer.commitWrite
  split
  · exact h
  · refine ⟨h.read_lt, by simp only; omega, ?_⟩
    simp only
    rw [mask_eq_mod, h.write_eq, Nat.mod_add_mod, Nat.add_assoc]

/-- Copying into the free cells leaves the queue alone. -/
theorem contents_store_free (h : b.WellFormed) (k : Nat) (hk : k ≤ N - b.readable)
    (bytes : List Byte) :
    (cells N b.read b.readable).map (store b.buffer (cells N (b.read + b.readable) k) bytes) =
      b.contents := by
  refine map_store_of_disjoint _ _ _ _ ?_
  intro c hread hfree
  have hle := h.readable_le
  have hnodup : (cells N b.read (b.readable + k)).Nodup := nodup_cells (by omega)
  rw [cells_add] at hnodup
  exact (List.disjoint_of_nodup_append hnodup) hread hfree

end WellFormed

/-- `prepare_write`, a copy of the bytes into the iovecs, and `commit_write` of their number. -/
def produce (b : IoRingBuffer N) (bytes : List Byte) : IoRingBuffer N :=
  (b.scatter b.prepareWrite bytes).commitWrite bytes.length

theorem produce_read (b : IoRingBuffer N) (bytes : List Byte) : (b.produce bytes).read = b.read := by
  unfold produce commitWrite
  split <;> rfl

theorem WellFormed.scatter {b : IoRingBuffer N} (h : b.WellFormed) (p : Prepare)
    (bytes : List Byte) : (b.scatter p bytes).WellFormed := ⟨h.read_lt, h.readable_le, h.write_eq⟩

theorem WellFormed.produce {b : IoRingBuffer N} (h : b.WellFormed) {bytes : List Byte}
    (hfit : bytes.length ≤ N - b.readable) : (b.produce bytes).WellFormed :=
  (h.scatter _ _).commitWrite hfit

theorem WellFormed.contents_produce {b : IoRingBuffer N} (h : b.WellFormed) {bytes : List Byte}
    (hfit : bytes.length ≤ N - b.readable) :
    (b.produce bytes).contents = b.contents ++ bytes := by
  have hcopied : (b.scatter b.prepareWrite bytes).buffer =
      store b.buffer (cells N (b.read + b.readable) bytes.length) bytes := by
    simp only [IoRingBuffer.scatter]
    rw [h.prepareWrite_cells, ← store_take, take_cells _ _ _ _ hfit]
  rw [IoRingBuffer.produce, contents_commitWrite]
  congr 1
  · rw [contents, hcopied]
    exact h.contents_store_free _ hfit bytes
  · rw [hcopied]
    exact map_store _ _ _ (nodup_cells (by omega)) (length_cells _ _ _).symm

theorem reset_wellFormed {b : IoRingBuffer N} (hN : 0 < N) : b.reset.WellFormed where
  read_lt := hN
  readable_le := Nat.zero_le N
  write_eq := (Nat.zero_mod N).symm

/-! ### The ring refines a queue of at most `N` bytes -/

/-- A use of the ring. A write copies at most the prepared bytes, a read takes at most the prepared
bytes and returns what the iovecs show. -/
def Step (b : IoRingBuffer N) : BoundedFifo.Event Byte → IoRingBuffer N → Prop
  | .enqueue bytes, b' => bytes.length ≤ b.prepareWrite.preparedBytes ∧ b' = b.produce bytes
  | .dequeue bytes, b' => bytes.length ≤ b.prepareRead.preparedBytes ∧
      bytes = (b.gather b.prepareRead).take bytes.length ∧ b' = b.commitRead bytes.length
  | .clear, b' => b' = b.reset

def machine (N : Nat) : Machine (IoRingBuffer N) (BoundedFifo.Event Byte) where
  Init b := ∃ storage, b = initial N storage
  Step := Step

/-- The ring holds the queue. -/
structure Represents (b : IoRingBuffer N) (q : BoundedFifo Byte N) : Prop where
  wellFormed : b.WellFormed
  contents_eq : b.contents = q.items

/-- A well-formed ring holds one queue. -/
def WellFormed.queue {b : IoRingBuffer N} (h : b.WellFormed) : BoundedFifo Byte N :=
  ⟨b.contents, (length_contents b).trans_le h.readable_le⟩

theorem initial_represents (hN : 0 < N) (storage : Nat → Byte) :
    (initial N storage).Represents BoundedFifo.empty where
  wellFormed := initial_wellFormed hN storage
  contents_eq := rfl

/-- Every use of the ring is the same use of the queue. -/
theorem step_represents {b b' : IoRingBuffer N} {q : BoundedFifo Byte N}
    {e : BoundedFifo.Event Byte} (h : b.Represents q) (hstep : b.Step e b') :
    ∃ q', q.Step e q' ∧ b'.Represents q' := by
  have hwf := h.wellFormed
  cases e with
  | enqueue bytes =>
      obtain ⟨hfit, rfl⟩ := hstep
      rw [hwf.preparedBytes_prepareWrite] at hfit
      have hwf' := hwf.produce hfit
      refine ⟨hwf'.queue, ?_, hwf', rfl⟩
      rw [BoundedFifo.Step, ← h.contents_eq]
      exact hwf.contents_produce hfit
  | dequeue bytes =>
      obtain ⟨hfit, hbytes, rfl⟩ := hstep
      rw [hwf.preparedBytes_prepareRead] at hfit
      have hwf' := hwf.commitRead hfit
      refine ⟨hwf'.queue, ?_, hwf', rfl⟩
      rw [hwf.gather_prepareRead] at hbytes
      have hsplit := List.take_append_drop bytes.length b.contents
      rw [← hbytes, ← contents_commitRead b hfit, h.contents_eq] at hsplit
      exact hsplit.symm
  | clear =>
      cases hstep
      exact ⟨BoundedFifo.empty, rfl, reset_wellFormed (Nat.zero_lt_of_lt hwf.read_lt), rfl⟩

/-- **No byte is lost, repeated or reordered** as long as the ring is not reset. -/
theorem run_conserves (hN : 0 < N) {storage : Nat → Byte} {b : IoRingBuffer N}
    {es : List (BoundedFifo.Event Byte)} (hrun : (machine N).Run (initial N storage) es b)
    (hreset : BoundedFifo.Event.clear ∉ es) :
    BoundedFifo.enqueued es = BoundedFifo.dequeued es ++ b.contents := by
  obtain ⟨q, hq, hrep⟩ := hrun.simulate (BoundedFifo.machine Byte N) Represents
    (fun _ _ _ _ hR hstep => step_represents hR hstep) (initial_represents hN storage)
  rw [hrep.contents_eq]
  exact BoundedFifo.conserved hq hreset

/-- **The ring is a queue of at most `N` bytes.** Whatever was copied in and taken out, the ring
holds exactly the bytes of the queue that saw the same operations, `prepare_read` shows them in order,
`prepare_write` offers the other cells in the order in which later reads return them, and the tests
agree with the queue's length. -/
theorem run_refines_fifo (hN : 0 < N) {storage : Nat → Byte} {b : IoRingBuffer N}
    {es : List (BoundedFifo.Event Byte)}
    (hrun : (machine N).Run (initial N storage) es b) :
    ∃ q : BoundedFifo Byte N,
      (BoundedFifo.machine Byte N).Run BoundedFifo.empty es q ∧
      b.read < N ∧ b.write < N ∧ b.write = (b.read + b.readable) % N ∧
      b.gather b.prepareRead = q.items ∧
      b.prepareRead.cells ++ b.prepareWrite.cells = cells N b.read N ∧
      (b.prepareRead.cells ++ b.prepareWrite.cells).Nodup ∧
      b.prepareRead.preparedBytes = q.items.length ∧
      b.prepareWrite.preparedBytes = N - q.items.length ∧
      (b.empty = true ↔ q.items = []) ∧ (b.full = true ↔ q.items.length = N) ∧
      b.rAvailable = q.items.length ∧ b.wAvailable = N - q.items.length := by
  obtain ⟨q, hq, hrep⟩ := hrun.simulate (BoundedFifo.machine Byte N) Represents
    (fun _ _ _ _ hR hstep => step_represents hR hstep) (initial_represents hN storage)
  have hwf := hrep.wellFormed
  have hlength : q.items.length = b.readable := by
    rw [← hrep.contents_eq, length_contents]
  refine ⟨q, hq, hwf.read_lt, hwf.write_lt, hwf.write_eq, ?_, hwf.prepared_turn, ?_, ?_, ?_, ?_, ?_,
    ?_, ?_⟩
  · rw [hwf.gather_prepareRead, hrep.contents_eq]
  · rw [hwf.prepared_turn]
    exact nodup_cells (le_refl N)
  · rw [hwf.preparedBytes_prepareRead, hlength]
  · rw [hwf.preparedBytes_prepareWrite, hlength]
  · rw [← List.length_eq_zero_iff, hlength]
    exact beq_iff_eq
  · rw [hlength]
    exact beq_iff_eq
  · exact hlength.symm
  · rw [hlength]
    rfl

/-- Three bytes in a ring of three cells, the last of them written past the wrap. -/
theorem run_refines_fifo_wrapped :
    ∃ (b : IoRingBuffer 3) (q : BoundedFifo Byte 3),
      (BoundedFifo.machine Byte 3).Run BoundedFifo.empty
        [.enqueue [1, 2], .dequeue [1], .enqueue [3, 4]] q ∧
      b.full = true ∧ b.read = 1 ∧ b.gather b.prepareRead = q.items := by
  let b₁ := (initial 3 fun _ => 0).produce [1, 2]
  let b₂ := b₁.commitRead 1
  have h₁ : (initial 3 fun _ => 0).Step (.enqueue [1, 2]) b₁ := ⟨by decide, rfl⟩
  have h₂ : b₁.Step (.dequeue [1]) b₂ := ⟨by decide, by decide, rfl⟩
  have h₃ : b₂.Step (.enqueue [3, 4]) (b₂.produce [3, 4]) := ⟨by decide, rfl⟩
  have hrun : (machine 3).Run (initial 3 fun _ => 0)
      [.enqueue [1, 2], .dequeue [1], .enqueue [3, 4]] (b₂.produce [3, 4]) :=
    (((Machine.Run.refl _).snoc h₁).snoc h₂).snoc h₃
  obtain ⟨q, hq, -, -, -, hgather, -⟩ := run_refines_fifo (by decide) hrun
  exact ⟨_, q, hq, by decide, by decide, hgather⟩

end IoRingBuffer
end TorrentEngine
