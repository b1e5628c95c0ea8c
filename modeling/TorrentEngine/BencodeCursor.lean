import TorrentEngine.BencodeCorrect

/-! The cursor of the decoders. Here `undecoded` throws where `substr` does, and neither the recursion nor
a loop may go on past its bound. The decoders of such a source never come to that: they return what
`Decode` returns, with the cursor not behind where it was and not past the end. -/

namespace TorrentEngine.Bencode

open OrderedEntries

/-- How a decoder would leave without returning. -/
inductive DecoderFault where
  /-- The exception of `substr`. -/
  | outOfRange
  /-- A loop or the recursion was not done within its bound. -/
  | unfinished
  deriving DecidableEq

namespace Source

/-- `undecoded()`, as a call of `substr`. -/
def view (e : Source) : Except DecoderFault (List Byte) :=
  if e.cursor ≤ e.source.length then .ok (e.source.drop e.cursor) else .error .outOfRange

def remaining (e : Source) : Nat := e.source.length - e.cursor

end Source

/-! ### The decoders, with their faults -/

namespace Checked

abbrev Decoder := Source → Except DecoderFault (Option Data × Source)

def string : Decoder := fun e => do
  let encodeBegin := e.cursor
  let view ← e.view
  if view.length < 2 then pure (none, e)
  else match findFirstOf view (ascii ':') with
    | none => pure (none, e)
    | some separatorIndex =>
        let lengthString := view.take separatorIndex
        let stringBegin := separatorIndex + 1
        if lengthString.head? = some (ascii '-') then pure (none, e)
        else match getNumberIfValid lengthString with
          | none => pure (none, e)
          | some declaredSize =>
              if declaredSize.toInt.toNat > view.length - stringBegin then pure (none, e)
              else
                let actualString : ByteString :=
                  ⟨(view.drop stringBegin).take declaredSize.toInt.toNat,
                    (List.length_take_le _ _).trans_lt (by have := declaredSize.toInt_lt; omega)⟩
                let e' := e.advance (stringBegin + declaredSize.toInt.toNat)
                pure (some (.string actualString ⟨encodeBegin, e'.cursor - encodeBegin⟩), e')

def integer : Decoder := fun e => do
  if (← e.view).head? ≠ some (ascii 'i') then pure (none, e)
  else
    let encodeBegin := e.cursor
    let e' := e.advance 1
    match findFirstOf (← e'.view) (ascii 'e') with
    | none => pure (none, e')
    | some endIndex =>
        if endIndex = 0 then pure (none, e')
        else
          let numberString := (← e'.view).take endIndex
          match getNumberIfValid numberString with
          | none => pure (none, e')
          | some decodeNumber =>
              let e'' := e'.advance (endIndex + 1)
              pure (some (.integer decodeNumber ⟨encodeBegin, e''.cursor - encodeBegin⟩), e'')

/-- Where the condition of both `while` loops fails: the source is empty, or at a delimiter. -/
def loopEnds (e : Source) : Except DecoderFault Bool := do
  if (← e.view) = [] then pure true else pure ((← e.view).head? == some (ascii 'e'))

/-- The `while` loop of `list`, whose body may run `turns` times. -/
def listLoop (any : Decoder) (turns : Nat) (list : List Data) (e : Source) :
    Except DecoderFault (Option (List Data) × Source) := do
  if ← loopEnds e then pure (some list, e)
  else match turns with
    | 0 => .error .unfinished
    | turns + 1 =>
        match ← any e with
        | (none, e') => pure (none, e')
        | (some bendecoded, e') => listLoop any turns (list ++ [bendecoded]) e'

def list (any : Decoder) : Decoder := fun e => do
  if (← e.view).head? ≠ some (ascii 'l') then pure (none, e)
  else
    let encodeBegin := e.cursor
    let e' := e.advance 1
    if (← e'.view) = [] then pure (none, e')
    else match ← listLoop any e'.remaining [] e' with
      | (none, e'') => pure (none, e'')
      | (some list, e'') =>
          if (← e''.view) = [] then pure (none, e'')
          else if (← e''.view).head? ≠ some (ascii 'e') then pure (none, e'')
          else
            let e''' := e''.advance 1
            pure (some (.list list ⟨encodeBegin, e'''.cursor - encodeBegin⟩), e''')

/-- The `while` loop of `dictionary`, whose body may run `turns` times. -/
def dictionaryLoop (any : Decoder) (turns : Nat) (dictionary : List (ByteString × Data)) (e : Source) :
    Except DecoderFault (Option (List (ByteString × Data)) × Source) := do
  if ← loopEnds e then pure (some dictionary, e)
  else match turns with
    | 0 => .error .unfinished
    | turns + 1 =>
        match ← string e with
        | (some (.string key _), e') =>
            match ← any e' with
            | (none, e'') => pure (none, e'')
            | (some val, e'') =>
                match tryEmplace key val dictionary with
                | none => pure (none, e'')
                | some dictionary' => dictionaryLoop any turns dictionary' e''
        | (_, e') => pure (none, e')

def dictionary (any : Decoder) : Decoder := fun e => do
  if (← e.view).head? ≠ some (ascii 'd') then pure (none, e)
  else
    let encodeBegin := e.cursor
    let e' := e.advance 1
    if (← e'.view) = [] then pure (none, e')
    else match ← dictionaryLoop any e'.remaining [] e' with
      | (none, e'') => pure (none, e'')
      | (some dictionary, e'') =>
          if (← e''.view) = [] then pure (none, e'')
          else if (← e''.view).head? ≠ some (ascii 'e') then pure (none, e'')
          else
            let e''' := e''.advance 1
            pure (some (.dictionary dictionary ⟨encodeBegin, e'''.cursor - encodeBegin⟩), e''')

/-- `decode::any`, whose calls may be nested `depth` deep. -/
def any : Nat → Decoder
  | 0 => fun _ => .error .unfinished
  | depth + 1 => fun e => do
      match (← e.view).head? with
      | none => pure (none, e)
      | some c =>
          if c = ascii 'i' then integer e
          else if c = ascii 'l' then list (any depth) e
          else if c = ascii 'd' then dictionary (any depth) e
          else string e

/-- `decode::input`, with a level for each byte and one more. -/
def input (undecoded : List Byte) : Except DecoderFault (Option Data) := do
  match ← any (undecoded.length + 1) ⟨undecoded, 0⟩ with
  | (some resolve, source) =>
      if source.cursor ≠ undecoded.length then pure none else pure (some resolve)
  | (none, _) => pure none

end Checked

/-! ### Cursors that move forward -/

/-- The cursor has not moved back, and is not past the end. -/
structure Forward (e e' : Source) : Prop where
  source : e'.source = e.source
  le : e.cursor ≤ e'.cursor
  inBounds : e'.cursor ≤ e'.source.length

/-- What a decoder does to the cursor: it goes forward, and with a value, the shortest of which has two
bytes, it goes on. -/
structure Advances {α : Type} (e : Source) (result : Option α × Source) : Prop extends
    Forward e result.2 where
  progress : result.1.isSome = true → e.cursor + 1 < result.2.cursor

variable {e e' e'' : Source}

theorem Source.view_eq (h : e.cursor ≤ e.source.length) : e.view = .ok e.undecoded := if_pos h

theorem Source.length_undecoded (e : Source) : e.undecoded.length = e.remaining := List.length_drop

theorem Forward.refl (h : e.cursor ≤ e.source.length) : Forward e e := ⟨rfl, le_rfl, h⟩

theorem Forward.trans (h : Forward e e') (h' : Forward e' e'') : Forward e e'' :=
  ⟨h'.source.trans h.source, h.le.trans h'.le, h'.inBounds⟩

theorem Forward.advance {n : Nat} (h : Forward e e') (hn : n ≤ e'.remaining) :
    Forward e (e'.advance n) := by
  have hbounds := h.inBounds
  have hle := h.le
  rw [Source.remaining] at hn
  refine ⟨h.source, ?_, ?_⟩
  · simp only [Source.advance]
    omega
  · simp only [Source.advance]
    omega

theorem Forward.remaining_le (h : Forward e e') : e'.remaining ≤ e.remaining := by
  have hle := h.le
  rw [Source.remaining, Source.remaining, h.source]
  omega

theorem Advances.none {α : Type} (h : Forward e e') : Advances e ((Option.none, e') : Option α × Source) :=
  ⟨h, fun hsome => Bool.noConfusion hsome⟩

theorem Source.remaining_pos {c : Byte} (h : e.undecoded.head? = some c) : 0 < e.remaining := by
  obtain ⟨tail, htail⟩ := List.head?_eq_some_iff.mp h
  rw [← Source.length_undecoded, htail]
  exact Nat.succ_pos _

theorem findFirstOf_lt {view : List Byte} {c : Byte} {k : Nat} (h : findFirstOf view c = some k) :
    k < view.length := (List.findIdx?_eq_some_iff_getElem.mp h).1

/-! ### Strings and integers -/

theorem string_checked (h : e.cursor ≤ e.source.length) :
    Checked.string e = .ok (Decode.string e) := by
  simp only [Checked.string, Decode.string, Source.view_eq h, bind, Except.bind]
  cases findFirstOf e.undecoded (ascii ':') with
  | none => split <;> rfl
  | some separatorIndex =>
      dsimp only
      cases getNumberIfValid (e.undecoded.take separatorIndex) with
      | none => split_ifs <;> rfl
      | some declaredSize =>
          dsimp only
          split_ifs <;> rfl

theorem string_advances (h : e.cursor ≤ e.source.length) : Advances e (Decode.string e) := by
  have hstay : Advances e ((none, e) : Option Data × Source) := .none (.refl h)
  simp only [Decode.string]
  split
  · exact hstay
  · split
    · exact hstay
    · rename_i separatorIndex hfind
      have hlt := findFirstOf_lt hfind
      rw [Source.length_undecoded] at hlt
      split
      · exact hstay
      · split
        · exact hstay
        · rename_i declaredSize hnumber
          have hdigits : separatorIndex ≠ 0 := by
            intro hzero
            apply (getNumberIfValid_eq_some.mp hnumber).ne_nil
            rw [hzero, List.take_zero]
          split
          · exact hstay
          · rename_i hremaining
            rw [Source.length_undecoded] at hremaining
            refine ⟨(Forward.refl h).advance (by omega), fun _ => ?_⟩
            simp only [Source.advance]
            omega

theorem integer_checked (h : e.cursor ≤ e.source.length) :
    Checked.integer e = .ok (Decode.integer e) := by
  simp only [Checked.integer, Decode.integer, Source.view_eq h, bind, Except.bind]
  by_cases hhead : e.undecoded.head? = some (ascii 'i')
  · have hafter := (Forward.refl h).advance (Source.remaining_pos hhead)
    simp only [hhead, ne_eq, not_true, if_false, Source.view_eq hafter.inBounds]
    cases findFirstOf (e.advance 1).undecoded (ascii 'e') with
    | none => rfl
    | some endIndex =>
        dsimp only
        cases getNumberIfValid ((e.advance 1).undecoded.take endIndex) with
        | none => split <;> rfl
        | some decodeNumber => split <;> rfl
  · rw [if_pos hhead, if_pos hhead]
    rfl

theorem integer_advances (h : e.cursor ≤ e.source.length) : Advances e (Decode.integer e) := by
  simp only [Decode.integer]
  split
  · exact .none (.refl h)
  · rename_i hhead
    have hafter := (Forward.refl h).advance (Source.remaining_pos (not_not.mp hhead))
    split
    · exact .none hafter
    · rename_i endIndex hfind
      have hlt := findFirstOf_lt hfind
      rw [Source.length_undecoded] at hlt
      split
      · exact .none hafter
      · split
        · exact .none hafter
        · refine ⟨hafter.advance hlt, fun _ => ?_⟩
          simp only [Source.advance]
          omega

/-! ### Lists, dictionaries and nested values -/

/-- On a source with at most `size` bytes left the decoder has no fault, returns what the other one does,
and takes the cursor forward. -/
def Checks (checked : Checked.Decoder) (decoder : Decoder) (size : Nat) : Prop :=
  ∀ e, e.cursor ≤ e.source.length → e.remaining ≤ size →
    checked e = .ok (decoder e) ∧ Advances e (decoder e)

theorem loopEnds_eq (h : e.cursor ≤ e.source.length) : Checked.loopEnds e =
    .ok (decide (e.undecoded = [] ∨ e.undecoded.head? = some (ascii 'e'))) := by
  simp only [Checked.loopEnds, Source.view_eq h, bind, Except.bind]
  by_cases hempty : e.undecoded = []
  · simp [hempty, pure, Except.pure]
  · simp [hempty, pure, Except.pure, beq_eq_decide]

/-- The body of a loop has a byte to read. -/
theorem remaining_pos_of_not_ends (hends : ¬ (e.undecoded = [] ∨ e.undecoded.head? = some (ascii 'e'))) :
    0 < e.remaining := by
  rw [← Source.length_undecoded, List.length_pos_iff]
  exact fun hempty => hends (Or.inl hempty)

/-- A value leaves less to read. -/
theorem Advances.remaining_lt {α : Type} {a : α} (h : Advances e (some a, e')) :
    e'.remaining + 2 ≤ e.remaining := by
  have hprogress := h.progress rfl
  have hbounds := h.inBounds
  have hsource := h.source
  dsimp only at hprogress hbounds hsource
  rw [Source.remaining, Source.remaining, ← hsource]
  omega

section Loops

variable {checked : Checked.Decoder} {any : Decoder} {size turns turns' : Nat}

/-- The body of the loop runs at most once for every byte left. -/
theorem listLoop_checked (hany : Checks checked any size) {list : List Data}
    (h : e.cursor ≤ e.source.length) (hsize : e.remaining ≤ size) (hturns : e.remaining ≤ turns)
    (hpos : 0 < turns') (hturns' : e.remaining ≤ turns') :
    Checked.listLoop checked turns list e = .ok (Decode.listLoop any turns' list e) ∧
      Forward e (Decode.listLoop any turns' list e).2 := by
  induction turns' generalizing turns list e with
  | zero => exact absurd hpos (lt_irrefl 0)
  | succ turns' ih =>
      rw [Checked.listLoop.eq_def, Decode.listLoop, loopEnds_eq h]
      simp only [bind, Except.bind, decide_eq_true_eq]
      by_cases hends : e.undecoded = [] ∨ e.undecoded.head? = some (ascii 'e')
      · rw [if_pos hends, if_pos hends]
        exact ⟨rfl, Forward.refl h⟩
      · rw [if_neg hends, if_neg hends]
        obtain ⟨hchecked, hadvances⟩ := hany e h hsize
        have hleft := remaining_pos_of_not_ends hends
        cases turns with
        | zero => omega
        | succ turns =>
            dsimp only
            rw [hchecked]
            generalize any e = result at hadvances
            obtain ⟨value, e'⟩ := result
            cases value with
            | none => exact ⟨rfl, hadvances.toForward⟩
            | some bendecoded =>
                have hless := hadvances.remaining_lt
                obtain ⟨hloop, hforward⟩ := @ih e' turns (list ++ [bendecoded]) hadvances.inBounds
                  (by omega) (by omega) (by omega) (by omega)
                exact ⟨hloop, hadvances.toForward.trans hforward⟩

/-- In a dictionary, too. -/
theorem dictionaryLoop_checked (hany : Checks checked any size)
    {dictionary : List (ByteString × Data)} (h : e.cursor ≤ e.source.length)
    (hsize : e.remaining ≤ size) (hturns : e.remaining ≤ turns) (hpos : 0 < turns')
    (hturns' : e.remaining ≤ turns') :
    Checked.dictionaryLoop checked turns dictionary e =
        .ok (Decode.dictionaryLoop any turns' dictionary e) ∧
      Forward e (Decode.dictionaryLoop any turns' dictionary e).2 := by
  induction turns' generalizing turns dictionary e with
  | zero => exact absurd hpos (lt_irrefl 0)
  | succ turns' ih =>
      rw [Checked.dictionaryLoop.eq_def, Decode.dictionaryLoop, loopEnds_eq h]
      simp only [bind, Except.bind, decide_eq_true_eq]
      by_cases hends : e.undecoded = [] ∨ e.undecoded.head? = some (ascii 'e')
      · rw [if_pos hends, if_pos hends]
        exact ⟨rfl, Forward.refl h⟩
      · rw [if_neg hends, if_neg hends]
        have hleft := remaining_pos_of_not_ends hends
        cases turns with
        | zero => omega
        | succ turns =>
            dsimp only
            rw [string_checked h]
            have hkey := string_advances h
            generalize Decode.string e = result at hkey
            obtain ⟨key, e'⟩ := result
            have hstop := hkey.toForward
            rcases key with _ | (_ | ⟨key, _⟩ | _ | _)
            · exact ⟨rfl, hstop⟩
            · exact ⟨rfl, hstop⟩
            · have hless := hkey.remaining_lt
              obtain ⟨hchecked, hadvances⟩ := hany e' hstop.inBounds (by omega)
              dsimp only
              rw [hchecked]
              generalize any e' = result at hadvances
              obtain ⟨val, e''⟩ := result
              cases val with
              | none => exact ⟨rfl, hstop.trans hadvances.toForward⟩
              | some val =>
                  have hless' := hadvances.remaining_lt
                  have hboth := hstop.trans hadvances.toForward
                  dsimp only
                  cases tryEmplace key val dictionary with
                  | none => exact ⟨rfl, hboth⟩
                  | some dictionary' =>
                      obtain ⟨hloop, hforward⟩ := @ih e'' turns dictionary' hboth.inBounds
                        (by omega) (by omega) (by omega) (by omega)
                      exact ⟨hloop, hboth.trans hforward⟩
            · exact ⟨rfl, hstop⟩
            · exact ⟨rfl, hstop⟩

end Loops

/-- How both containers end: at the delimiter they return their value, else none. -/
theorem closes (h : Forward (e.advance 1) e') (value : Data) :
    (do
      if (← e'.view) = [] then pure (none, e')
      else if (← e'.view).head? ≠ some (ascii 'e') then pure (none, e')
      else pure (some value, e'.advance 1) : Except DecoderFault (Option Data × Source)) =
        .ok (if e'.undecoded.head? ≠ some (ascii 'e') then (none, e') else (some value, e'.advance 1)) ∧
      Advances e (if e'.undecoded.head? ≠ some (ascii 'e') then (none, e')
        else (some value, e'.advance 1)) := by
  have hheader : Forward e e' := ⟨h.source, (Nat.le_succ _).trans h.le, h.inBounds⟩
  simp only [Source.view_eq h.inBounds, bind, Except.bind]
  by_cases hend : e'.undecoded.head? = some (ascii 'e')
  · have hne : e'.undecoded ≠ [] := by
      intro hempty
      rw [hempty] at hend
      cases hend
    rw [if_neg hne, if_neg (not_not.mpr hend), if_neg (not_not.mpr hend)]
    refine ⟨rfl, hheader.advance (Source.remaining_pos hend), fun _ => ?_⟩
    have hle := h.le
    simp only [Source.advance] at hle ⊢
    omega
  · rw [if_pos hend, if_pos hend, ite_self]
    exact ⟨rfl, .none hheader⟩

section Containers

variable {checked : Checked.Decoder} {any : Decoder} {size : Nat}

/-- The contents of a container, of whose header `size + 1` bytes and more are left. -/
theorem contents_left {c : Byte} (h : e.cursor ≤ e.source.length) (hsize : e.remaining ≤ size + 1)
    (hhead : e.undecoded.head? = some c) :
    Forward e (e.advance 1) ∧ (e.advance 1).remaining ≤ size := by
  have hpos := Source.remaining_pos hhead
  refine ⟨(Forward.refl h).advance hpos, ?_⟩
  rw [Source.remaining] at hpos hsize ⊢
  simp only [Source.advance]
  omega

theorem list_checks (hany : Checks checked any size) :
    Checks (Checked.list checked) (Decode.list any) (size + 1) := by
  intro e h hsize
  simp only [Checked.list, Decode.list, Source.view_eq h, bind, Except.bind]
  by_cases hhead : e.undecoded.head? = some (ascii 'l')
  · obtain ⟨hafter, hleft⟩ := contents_left h hsize hhead
    simp only [hhead, ne_eq, not_true, if_false, Source.view_eq hafter.inBounds]
    by_cases hempty : (e.advance 1).undecoded = []
    · rw [if_pos hempty, if_pos hempty]
      exact ⟨rfl, .none hafter⟩
    · rw [if_neg hempty, if_neg hempty]
      obtain ⟨hloop, hforward⟩ := @listLoop_checked _ _ any size (e.advance 1).remaining
        (e.advance 1).undecoded.length hany [] hafter.inBounds hleft le_rfl
        (List.length_pos_iff.mpr hempty) (Source.length_undecoded _).ge
      rw [hloop]
      generalize Decode.listLoop any _ [] _ = result at hforward
      obtain ⟨items, e''⟩ := result
      cases items with
      | none => exact ⟨rfl, .none (hafter.trans hforward)⟩
      | some items => exact closes hforward _
  · rw [if_pos hhead, if_pos hhead]
    exact ⟨rfl, .none (Forward.refl h)⟩

theorem dictionary_checks (hany : Checks checked any size) :
    Checks (Checked.dictionary checked) (Decode.dictionary any) (size + 1) := by
  intro e h hsize
  simp only [Checked.dictionary, Decode.dictionary, Source.view_eq h, bind, Except.bind]
  by_cases hhead : e.undecoded.head? = some (ascii 'd')
  · obtain ⟨hafter, hleft⟩ := contents_left h hsize hhead
    simp only [hhead, ne_eq, not_true, if_false, Source.view_eq hafter.inBounds]
    by_cases hempty : (e.advance 1).undecoded = []
    · rw [if_pos hempty, if_pos hempty]
      exact ⟨rfl, .none hafter⟩
    · rw [if_neg hempty, if_neg hempty]
      obtain ⟨hloop, hforward⟩ := @dictionaryLoop_checked _ _ any size (e.advance 1).remaining
        (e.advance 1).undecoded.length hany [] hafter.inBounds hleft le_rfl
        (List.length_pos_iff.mpr hempty) (Source.length_undecoded _).ge
      rw [hloop]
      generalize Decode.dictionaryLoop any _ [] _ = result at hforward
      obtain ⟨entries, e''⟩ := result
      cases entries with
      | none => exact ⟨rfl, .none (hafter.trans hforward)⟩
      | some entries => exact closes hforward _
  · rw [if_pos hhead, if_pos hhead]
    exact ⟨rfl, .none (Forward.refl h)⟩

end Containers

/-- One level of nesting for each byte left, and one more, is enough; and the other decoder does with one
for each byte. -/
theorem any_checks {size depth : Nat} (hdepth : size ≤ depth) :
    Checks (Checked.any (size + 1)) (Decode.any depth) size := by
  induction size generalizing depth with
  | zero =>
      intro e h hsize
      have hempty : e.undecoded = [] := by
        rw [← List.length_eq_zero_iff, Source.length_undecoded]
        omega
      have hstay : Advances e ((none, e) : Option Data × Source) := .none (.refl h)
      simp only [Checked.any, Source.view_eq h, hempty, bind, Except.bind]
      cases depth with
      | zero => exact ⟨rfl, hstay⟩
      | succ depth =>
          simp only [Decode.any, hempty]
          exact ⟨rfl, hstay⟩
  | succ size ih =>
      intro e h hsize
      obtain ⟨depth, rfl⟩ := Nat.exists_eq_succ_of_ne_zero (Nat.ne_zero_of_lt hdepth)
      have hinner := ih (Nat.le_of_succ_le_succ hdepth)
      simp only [Checked.any, Decode.any, Source.view_eq h, bind, Except.bind]
      cases hhead : e.undecoded.head? with
      | none => exact ⟨rfl, .none (.refl h)⟩
      | some c =>
          dsimp only
          split_ifs
          · exact ⟨integer_checked h, integer_advances h⟩
          · exact list_checks hinner e h hsize
          · exact dictionary_checks hinner e h hsize
          · exact ⟨string_checked h, string_advances h⟩

/-- A result that no bound changes which is large enough. -/
theorem settled {α : Type} (checked : Nat → Except DecoderFault α) (result : Nat → α) {size : Nat}
    (h : ∀ bound depth, size ≤ bound → bound ≤ depth → checked (bound + 1) = .ok (result depth))
    {depth : Nat} (hdepth : size < depth) : checked depth = .ok (result size) := by
  obtain ⟨bound, rfl⟩ := Nat.exists_eq_succ_of_ne_zero (Nat.ne_zero_of_lt hdepth)
  have hle : size ≤ bound := Nat.le_of_lt_succ hdepth
  calc checked (bound + 1) = .ok (result bound) := h bound bound hle le_rfl
    _ = checked (size + 1) := (h size bound le_rfl hle).symm
    _ = .ok (result size) := h size size le_rfl le_rfl

/-- What every decoder does from a cursor within the source: it returns, it does not throw, and the cursor
goes forward. The nesting need not be allowed deeper, and the body of a loop need not run more often, than
there are bytes left. -/
structure Safe (e : Source) : Prop where
  string : Checked.string e = .ok (Decode.string e) ∧ Advances e (Decode.string e)
  integer : Checked.integer e = .ok (Decode.integer e) ∧ Advances e (Decode.integer e)
  any : (∀ depth, e.remaining < depth → Checked.any depth e = .ok (Decode.any e.remaining e)) ∧
    Advances e (Decode.any e.remaining e)
  list : (∀ depth, e.remaining < depth →
      Checked.list (Checked.any depth) e = .ok (Decode.list (Decode.any e.remaining) e)) ∧
    Advances e (Decode.list (Decode.any e.remaining) e)
  dictionary : (∀ depth, e.remaining < depth →
      Checked.dictionary (Checked.any depth) e = .ok (Decode.dictionary (Decode.any e.remaining) e)) ∧
    Advances e (Decode.dictionary (Decode.any e.remaining) e)
  listLoop : ∀ items, ∃ result, Forward e result.2 ∧
    ∀ depth turns, e.remaining < depth → e.remaining ≤ turns →
      Checked.listLoop (Checked.any depth) turns items e = .ok result
  dictionaryLoop : ∀ entries, ∃ result, Forward e result.2 ∧
    ∀ depth turns, e.remaining < depth → e.remaining ≤ turns →
      Checked.dictionaryLoop (Checked.any depth) turns entries e = .ok result

theorem safe (h : e.cursor ≤ e.source.length) : Safe e := by
  have hany : ∀ bound depth, e.remaining ≤ bound → bound ≤ depth →
      Checks (Checked.any (bound + 1)) (Decode.any depth) bound := fun _ _ _ hle => any_checks hle
  refine ⟨⟨string_checked h, string_advances h⟩, ⟨integer_checked h, integer_advances h⟩,
    ⟨fun depth hdepth => ?_, ?_⟩, ⟨fun depth hdepth => ?_, ?_⟩, ⟨fun depth hdepth => ?_, ?_⟩,
    fun items => ?_, fun entries => ?_⟩
  · exact settled (fun depth => Checked.any depth e) (fun depth => Decode.any depth e)
      (fun bound depth hsize hle => (hany bound depth hsize hle e h hsize).1) hdepth
  · exact (hany _ _ le_rfl le_rfl e h le_rfl).2
  · exact settled (fun depth => Checked.list (Checked.any depth) e)
      (fun depth => Decode.list (Decode.any depth) e)
      (fun bound depth hsize hle =>
        (list_checks (hany bound depth hsize hle) e h (hsize.trans (Nat.le_succ _))).1) hdepth
  · exact (list_checks (hany _ _ le_rfl le_rfl) e h (Nat.le_succ _)).2
  · exact settled (fun depth => Checked.dictionary (Checked.any depth) e)
      (fun depth => Decode.dictionary (Decode.any depth) e)
      (fun bound depth hsize hle =>
        (dictionary_checks (hany bound depth hsize hle) e h (hsize.trans (Nat.le_succ _))).1) hdepth
  · exact (dictionary_checks (hany _ _ le_rfl le_rfl) e h (Nat.le_succ _)).2
  · have hloop : ∀ bound depth turns, e.remaining ≤ bound → bound ≤ depth → e.remaining ≤ turns → _ :=
      fun bound depth turns hsize hle hturns => @listLoop_checked e _ _ bound turns (e.remaining + 1)
        (hany bound depth hsize hle) items h hsize hturns (Nat.succ_pos _) (Nat.le_succ _)
    refine ⟨_, (hloop _ _ _ le_rfl le_rfl le_rfl).2, fun depth turns hdepth hturns => ?_⟩
    exact settled (fun depth => Checked.listLoop (Checked.any depth) turns items e)
      (fun depth => Decode.listLoop (Decode.any depth) (e.remaining + 1) items e)
      (fun bound depth hsize hle => (hloop bound depth turns hsize hle hturns).1) hdepth
  · have hloop : ∀ bound depth turns, e.remaining ≤ bound → bound ≤ depth → e.remaining ≤ turns → _ :=
      fun bound depth turns hsize hle hturns => @dictionaryLoop_checked e _ _ bound turns
        (e.remaining + 1) (hany bound depth hsize hle) entries h hsize hturns (Nat.succ_pos _)
        (Nat.le_succ _)
    refine ⟨_, (hloop _ _ _ le_rfl le_rfl le_rfl).2, fun depth turns hdepth hturns => ?_⟩
    exact settled (fun depth => Checked.dictionaryLoop (Checked.any depth) turns entries e)
      (fun depth => Decode.dictionaryLoop (Decode.any depth) (e.remaining + 1) entries e)
      (fun bound depth hsize hle => (hloop bound depth turns hsize hle hturns).1) hdepth

/-- The whole of any input is decoded without a fault. -/
theorem input_checked (undecoded : List Byte) :
    Checked.input undecoded = .ok (Decode.input undecoded) := by
  have hany := (safe (show (⟨undecoded, 0⟩ : Source).cursor ≤ undecoded.length from Nat.zero_le _)).any.1
    (undecoded.length + 1) (Nat.lt_succ_self _)
  rw [Checked.input, hany, Decode.input]
  simp only [bind, Except.bind, Source.remaining, Nat.sub_zero]
  generalize Decode.any undecoded.length ⟨undecoded, 0⟩ = result
  obtain ⟨value, source⟩ := result
  cases value with
  | none => rfl
  | some resolve =>
      dsimp only
      split <;> rfl

/-- **Cursor safety and progress**, for every source and every cursor within it, and for every input. -/
theorem decoders_safe (undecoded : List Byte) :
    (∀ cursor ≤ undecoded.length, Safe ⟨undecoded, cursor⟩) ∧
      Checked.input undecoded = .ok (Decode.input undecoded) :=
  ⟨fun _ hcursor => safe hcursor, input_checked undecoded⟩

/-- `l1:a`, a list without its delimiter. -/
def cutList : List Byte := "l1:a".toList.map ascii

/-- The list decoder reads it to the end and has no value. -/
theorem decoders_safe_cut : Decode.list (Decode.any 4) ⟨cutList, 0⟩ = (none, ⟨cutList, 4⟩) ∧
    Safe ⟨cutList, 0⟩ ∧ Safe ⟨cutList, 4⟩ :=
  ⟨rfl, (decoders_safe cutList).1 0 (by decide), (decoders_safe cutList).1 4 (by decide)⟩

end TorrentEngine.Bencode
