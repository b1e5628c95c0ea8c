import Mathlib.Data.List.TakeDrop
import TorrentEngine.Handshake

/-! The encoder of the handshake, called again and again on one cursor while the ring it writes into is
drained. Whatever the ring offers, one iovec or two, a call appends what fits of what is left. -/

open Transition CyclicCells

namespace TorrentEngine.IoRingBuffer

variable {N : Nat}

/-- A copy of the bytes into these cells, and `commit_write` of their number. -/
def fill (b : IoRingBuffer N) (cs : List Nat) (bytes : List Byte) : IoRingBuffer N :=
  IoRingBuffer.commitWrite { b with buffer := store b.buffer cs bytes } bytes.length

theorem produce_eq_fill (b : IoRingBuffer N) (bytes : List Byte) :
    b.produce bytes = b.fill b.prepareWrite.cells bytes := rfl

theorem commitWrite_add (b : IoRingBuffer N) (m n : Nat) :
    (b.commitWrite m).commitWrite n = b.commitWrite (m + n) := by
  by_cases hm : m = 0
  · rw [hm, Nat.zero_add]
    rfl
  · by_cases hn : n = 0
    · rw [hn, Nat.add_zero]
      exact if_pos rfl
    · rw [commitWrite, commitWrite, commitWrite, if_neg hm, if_neg hn, if_neg (by omega)]
      simp only [mask_eq_mod, Nat.mod_add_mod, Nat.add_assoc]

theorem commitWrite_buffer (b : IoRingBuffer N) (n : Nat) : (b.commitWrite n).buffer = b.buffer := by
  rw [commitWrite]
  split <;> rfl

theorem commitWrite_with (b : IoRingBuffer N) (n : Nat) (storage : Nat → Byte) :
    ({ b.commitWrite n with buffer := storage } : IoRingBuffer N) =
      IoRingBuffer.commitWrite { b with buffer := storage } n := by
  rw [commitWrite, commitWrite]
  split <;> rfl

theorem fill_nil (b : IoRingBuffer N) (cs : List Nat) : b.fill cs [] = b := by
  cases cs <;> rfl

/-- Cells past the bytes are not written. -/
theorem fill_append_left (b : IoRingBuffer N) {cs : List Nat} (ds : List Nat) {bytes : List Byte}
    (h : bytes.length ≤ cs.length) : b.fill (cs ++ ds) bytes = b.fill cs bytes := by
  rw [fill, fill, ← store_take, List.take_append_of_le_length h, store_take]

/-- Cells filled in two steps. -/
theorem fill_fill (b : IoRingBuffer N) {cs : List Nat} (ds : List Nat) {bytes : List Byte}
    (more : List Byte) (h : bytes.length = cs.length) :
    (b.fill cs bytes).fill ds more = b.fill (cs ++ ds) (bytes ++ more) := by
  rw [fill, fill, fill, commitWrite_with, commitWrite_add, commitWrite_buffer, store_append _ _ _ _ _ h,
    List.length_append]

end TorrentEngine.IoRingBuffer

namespace TorrentEngine.Handshake

variable {N : Nat} {handshake : List Byte}

/-- One turn: the part of the message that fits is copied into the iovec. -/
theorem encodeIovecs_cons (hlength : handshake.length = length) {ioPath : Iovec} (ioPaths : List Iovec)
    (hroom : ioPath.len ≠ 0) (b : IoRingBuffer N) (cursor : Nat) :
    let bytes := (handshake.drop cursor).take ioPath.len
    encodeIovecs handshake (ioPath :: ioPaths) ⟨b, cursor, false⟩ =
      if cursor + bytes.length = length then ⟨b.fill ioPath.cells bytes, length, true⟩
      else encodeIovecs handshake ioPaths
        ⟨b.fill ioPath.cells bytes, cursor + bytes.length, false⟩ := by
  intro bytes
  have hcount : min (length - cursor) ioPath.len = bytes.length := by
    rw [List.length_take, List.length_drop, hlength, Nat.min_comm]
  have hcopied : (handshake.drop cursor).take bytes.length = bytes :=
    (List.prefix_iff_eq_take.mp (List.take_prefix _ _)).symm
  rw [encodeIovecs, if_neg hroom]
  dsimp only
  rw [hcount, hcopied]
  split
  · rename_i hend
    rw [hend]
    rfl
  · rfl

/-- The loop fills the cells of the iovecs, as long as no iovec with room comes after one without. -/
theorem encodeIovecs_fill (hlength : handshake.length = length) {ioPaths : List Iovec}
    (hpaths : ioPaths.Pairwise fun a b => a.len = 0 → b.len = 0) (b : IoRingBuffer N) {cursor : Nat}
    (hcursor : cursor < length) :
    let cells := ioPaths.flatMap Iovec.cells
    let bytes := (handshake.drop cursor).take cells.length
    encodeIovecs handshake ioPaths ⟨b, cursor, false⟩ =
      ⟨b.fill cells bytes, cursor + bytes.length, decide (cursor + bytes.length = length)⟩ := by
  have hnot : cursor ≠ length := hcursor.ne
  induction ioPaths generalizing b cursor with
  | nil => simp [encodeIovecs, IoRingBuffer.fill_nil, hnot]
  | cons ioPath ioPaths ih =>
      rw [List.pairwise_cons] at hpaths
      obtain ⟨hfirst, hrest⟩ := hpaths
      rw [List.flatMap_cons]
      have hlen : ioPath.cells.length = ioPath.len := List.length_range'
      by_cases hroom : ioPath.len = 0
      · have hnone : ∀ later ∈ ioPath :: ioPaths, later.cells = [] := by
          rw [List.forall_mem_cons]
          refine ⟨List.eq_nil_of_length_eq_zero (hlen.trans hroom), fun later hlater => ?_⟩
          exact List.eq_nil_of_length_eq_zero (List.length_range'.trans (hfirst later hlater hroom))
        rw [List.forall_mem_cons] at hnone
        rw [hnone.1, List.flatMap_eq_nil_iff.mpr hnone.2, encodeIovecs, if_pos hroom]
        simp [IoRingBuffer.fill_nil, hnot]
      · have hturn := encodeIovecs_cons hlength ioPaths hroom b cursor
        dsimp only at hturn ⊢
        rw [hturn, List.length_append, hlen, List.take_add]
        have htake : ((handshake.drop cursor).take ioPath.len).length =
            min ioPath.len (length - cursor) := by
          rw [List.length_take, List.length_drop, hlength]
        split
        · rename_i hend
          have hrest : (handshake.drop cursor).drop ioPath.len = [] := by
            rw [List.drop_eq_nil_iff, List.length_drop, hlength]
            omega
          rw [hrest, List.take_nil, List.append_nil, hend, decide_eq_true rfl,
            IoRingBuffer.fill_append_left _ _ (by omega)]
        · rename_i hend
          have hfull : ((handshake.drop cursor).take ioPath.len).length = ioPath.len := by omega
          have hlater := ih hrest
            (b.fill ioPath.cells ((handshake.drop cursor).take ioPath.len)) (by omega) hend
          dsimp only at hlater
          rw [hlater, IoRingBuffer.fill_fill _ _ _ (hfull.trans hlen.symm), List.length_append, hfull,
            List.drop_drop, Nat.add_assoc]

/-- An iovec without room is never followed by one with room. -/
theorem prepareWrite_pairwise {b : IoRingBuffer N} (hwf : b.WellFormed) :
    b.prepareWrite.iovecs.Pairwise fun a b => a.len = 0 → b.len = 0 := by
  have hwrite := hwf.write_lt
  rw [IoRingBuffer.prepareWrite]
  split
  · exact .nil
  · split
    · exact List.pairwise_singleton _ _
    · refine List.pairwise_pair.mpr fun hzero => ?_
      dsimp only at hzero
      omega

theorem prepareWrite_room {b : IoRingBuffer N} (hwf : b.WellFormed) :
    b.prepareWrite.cells.length = b.wAvailable := by
  rw [hwf.prepareWrite_cells, length_cells, IoRingBuffer.wAvailable]

theorem prepareWrite_not_empty {b : IoRingBuffer N} (hwf : b.WellFormed) (hroom : b.wAvailable ≠ 0) :
    b.prepareWrite.empty = false := by
  by_contra hempty
  rw [Bool.not_eq_false, Prepare.empty, beq_iff_eq] at hempty
  have hcells := prepareWrite_room hwf
  rw [Prepare.cells, Prepare.iovecs, hempty] at hcells
  exact hroom hcells.symm

/-- **What a call does**: it appends as much of what is left as the ring has room for. -/
theorem encode_produce (hlength : handshake.length = length) {b : IoRingBuffer N} (hwf : b.WellFormed)
    {cursor : Nat} (hcursor : cursor ≤ length) :
    let bytes := (handshake.drop cursor).take b.wAvailable
    encode handshake b cursor =
      ⟨b.produce bytes, cursor + bytes.length, decide (cursor + bytes.length = length)⟩ := by
  intro bytes
  rw [encode, IoRingBuffer.produce_eq_fill]
  split
  · rename_i hdone
    have hnothing : bytes = [] := by
      rw [show bytes = (handshake.drop cursor).take b.wAvailable from rfl,
        List.drop_eq_nil_of_le (by rwa [hlength]), List.take_nil]
    have hend : cursor = length := Nat.le_antisymm hcursor hdone
    rw [hnothing, IoRingBuffer.fill_nil]
    simp [hend]
  · rename_i hmore
    split
    · rename_i hempty
      have hfull : b.wAvailable = 0 := by
        by_contra hroom
        rw [prepareWrite_not_empty hwf hroom] at hempty
        cases hempty
      have hnothing : bytes = [] := by
        rw [show bytes = (handshake.drop cursor).take b.wAvailable from rfl, hfull, List.take_zero]
      have hnot : cursor ≠ length := by omega
      rw [hnothing, IoRingBuffer.fill_nil]
      simp [hnot]
    · have hloop := encodeIovecs_fill hlength (prepareWrite_pairwise hwf) b (Nat.lt_of_not_le hmore)
      dsimp only at hloop
      rw [show b.prepareWrite.iovecs.flatMap Iovec.cells = b.prepareWrite.cells from rfl,
        prepareWrite_room hwf] at hloop
      exact hloop

/-- **One call encodes the whole handshake** into an empty ring of its size, wherever it starts. -/
theorem encode_empty {buffer : IoRingBuffer 68} (hwf : buffer.WellFormed)
    (hlength : handshake.length = length) (hreadable : buffer.readable = 0) :
    encode handshake buffer 0 = ⟨buffer.produce handshake, length, true⟩ := by
  have hroom : (handshake.drop 0).take buffer.wAvailable = handshake := by
    rw [List.drop_zero, IoRingBuffer.wAvailable, hreadable]
    exact List.take_of_length_le hlength.le
  have hcall := encode_produce hlength hwf (Nat.zero_le length)
  dsimp only at hcall
  rw [hcall, hroom, hlength, Nat.zero_add, decide_eq_true rfl]

/-! ### Calls and drains -/

/-- A call of the encoder, or a send that takes bytes out of the ring. -/
inductive EncodeEvent where
  | encode
  | drain (bytes : Nat)

/-- A ring, the cursor of the calls so far, and the bytes by which they have lengthened its queue. -/
structure Encoder (N : Nat) where
  buffer : IoRingBuffer N
  cursor : Nat
  appended : List Byte

namespace Encoder

/-- A drain takes no more than the ring holds. -/
def Step (handshake : List Byte) (s : Encoder N) : EncodeEvent → Encoder N → Prop
  | .encode, s' =>
      let called := Handshake.encode handshake s.buffer s.cursor
      s' = ⟨called.buffer, called.cursor,
        s.appended ++ called.buffer.contents.drop s.buffer.contents.length⟩
  | .drain bytes, s' =>
      bytes ≤ s.buffer.rAvailable ∧ s' = { s with buffer := s.buffer.commitRead bytes }

/-- Any ring to start with, and a cursor that has not moved. -/
def machine (N : Nat) (handshake : List Byte) : Machine (Encoder N) EncodeEvent where
  Init s := s.buffer.WellFormed ∧ s.cursor = 0 ∧ s.appended = []
  Step := Step handshake

/-- The calls have appended the first bytes of the handshake, up to the cursor. -/
structure Resumes (handshake : List Byte) (s : Encoder N) : Prop where
  wellFormed : s.buffer.WellFormed
  cursor_le : s.cursor ≤ length
  appended : s.appended = handshake.take s.cursor

theorem Resumes.length_appended (hlength : handshake.length = length) {s : Encoder N}
    (h : s.Resumes handshake) : s.appended.length = s.cursor := by
  have hcursor := h.cursor_le
  rw [h.appended, List.length_take, hlength]
  omega

theorem contents_encode (hlength : handshake.length = length) {s : Encoder N}
    (h : s.Resumes handshake) :
    (Handshake.encode handshake s.buffer s.cursor).buffer.contents =
      s.buffer.contents ++ (handshake.drop s.cursor).take s.buffer.wAvailable := by
  have hcall := encode_produce hlength h.wellFormed h.cursor_le
  dsimp only at hcall
  rw [hcall]
  exact h.wellFormed.contents_produce (List.length_take_le _ _)

theorem step_resumes (hlength : handshake.length = length) {s s' : Encoder N} {e : EncodeEvent}
    (h : s.Resumes handshake) (hstep : s.Step handshake e s') : s'.Resumes handshake := by
  cases e with
  | encode =>
      cases hstep
      have hcall := encode_produce hlength h.wellFormed h.cursor_le
      have hcontents := contents_encode hlength h
      dsimp only at hcall
      have hcount : ((handshake.drop s.cursor).take s.buffer.wAvailable).length ≤ length - s.cursor := by
        rw [List.length_take, List.length_drop, hlength]
        exact Nat.min_le_right _ _
      have hle := h.cursor_le
      constructor
      · rw [hcall]
        exact h.wellFormed.produce (List.length_take_le _ _)
      · rw [hcall]
        dsimp only
        omega
      · rw [hcontents, List.drop_left, h.appended, hcall]
        dsimp only
        rw [List.take_add, ← List.prefix_iff_eq_take.mp (List.take_prefix _ _)]
  | drain bytes =>
      obtain ⟨hbytes, rfl⟩ := hstep
      exact ⟨h.wellFormed.commitRead hbytes, h.cursor_le, h.appended⟩

theorem resumes (hlength : handshake.length = length) {s : Encoder N}
    (h : (machine N handshake).Reachable s) : s.Resumes handshake := by
  refine h.invariant _ (fun s hinit => ?_) fun s e s' => step_resumes hlength
  obtain ⟨hwf, hcursor, happended⟩ := hinit
  exact ⟨hwf, by rw [hcursor]; exact Nat.zero_le _, by rw [happended, hcursor, List.take_zero]⟩

/-- **Resumable encoding.** Whatever was called and drained, the bytes appended so far are the first ones
of the handshake; the next call appends as many of the others as the ring has room for and reports
completion exactly when no byte is missing, also when it has nothing left to append; and an empty ring of
the size of the handshake takes it in one call at any offset. -/
theorem encode_resumes (hlength : handshake.length = length) (s : Encoder N)
    (h : (machine N handshake).Reachable s) :
    let called := Handshake.encode handshake s.buffer s.cursor
    let count := min (length - s.cursor) s.buffer.wAvailable
    let next := (handshake.drop s.cursor).take count
    s.appended <+: handshake ∧ s.appended.length = s.cursor ∧
      called.buffer.contents = s.buffer.contents ++ next ∧ next.length = count ∧
      called.cursor = s.cursor + count ∧
      (called.complete = true ↔ s.appended ++ next = handshake) ∧
      (s.appended = handshake → called.complete = true ∧ called.buffer = s.buffer) ∧
      ∀ b : IoRingBuffer 68, b.WellFormed → b.empty = true →
        (Handshake.encode handshake b 0).complete = true ∧
          (Handshake.encode handshake b 0).buffer.contents = handshake := by
  intro called count next
  have hs := resumes hlength h
  have hcursor := hs.cursor_le
  have hleft : (handshake.drop s.cursor).length = length - s.cursor := by
    rw [List.length_drop, hlength]
  have hnext : next = (handshake.drop s.cursor).take s.buffer.wAvailable := by
    rw [List.take_eq_take_min, hleft, Nat.min_comm]
  have hcount : next.length = count := by
    rw [List.length_take, hleft]
    omega
  have hcall := encode_produce hlength hs.wellFormed hcursor
  dsimp only at hcall
  rw [← hnext, hcount] at hcall
  have happended : s.appended ++ next = handshake.take (s.cursor + count) := by
    rw [hs.appended, ← List.take_add]
  refine ⟨?_, ?_, ?_, hcount, ?_, ?_, ?_, ?_⟩
  · rw [hs.appended]
    exact List.take_prefix _ _
  · exact hs.length_appended hlength
  · rw [hnext]
    exact contents_encode hlength hs
  · exact congrArg EncodeLoop.cursor hcall
  · rw [congrArg EncodeLoop.complete hcall, happended, decide_eq_true_iff, List.take_eq_self_iff, hlength]
    omega
  · intro hall
    have hend : s.cursor = length := by
      rw [← hs.length_appended hlength, hall, hlength]
    rw [show called = ⟨s.buffer, s.cursor, true⟩ from if_pos hend.ge]
    exact ⟨rfl, rfl⟩
  · intro b hwf hempty
    have hnone : b.readable = 0 := beq_iff_eq.mp hempty
    rw [encode_empty hwf hlength hnone]
    refine ⟨rfl, ?_⟩
    dsimp only
    rw [hwf.contents_produce (by rw [hnone, hlength, length]),
      List.eq_nil_of_length_eq_zero ((IoRingBuffer.length_contents b).trans hnone), List.nil_append]

/-- A ring of 40 bytes that has been drained after it took the first 40 bytes takes the other 28. -/
theorem encode_resumes_drained :
    let handshake := computeHandshake (.replicate 20 0)
    ∃ s : Encoder 40, (machine 40 handshake).Reachable s ∧ s.appended.length = 40 ∧
      (Handshake.encode handshake s.buffer s.cursor).cursor = 68 := by
  intro handshake
  let start : Encoder 40 := ⟨IoRingBuffer.initial 40 fun _ => 0, 0, []⟩
  let called := Handshake.encode handshake start.buffer 0
  let filled : Encoder 40 := ⟨called.buffer, called.cursor, [] ++ called.buffer.contents.drop 0⟩
  let drained : Encoder 40 := { filled with buffer := filled.buffer.commitRead 40 }
  have hstart : (machine 40 handshake).Reachable start :=
    .init ⟨IoRingBuffer.initial_wellFormed (by decide) _, rfl, rfl⟩
  have hfilled : (machine 40 handshake).Reachable filled := @Machine.Reachable.step _ _ _ _ _ .encode hstart rfl
  have hdrained : (machine 40 handshake).Reachable drained :=
    @Machine.Reachable.step _ _ _ _ _ (.drain 40) hfilled ⟨by decide, rfl⟩
  obtain ⟨-, hlength, -, -, hcursor, -⟩ :=
    encode_resumes (length_computeHandshake (.replicate 20 0)) drained hdrained
  exact ⟨drained, hdrained, hlength, hcursor⟩

end Encoder

end TorrentEngine.Handshake
