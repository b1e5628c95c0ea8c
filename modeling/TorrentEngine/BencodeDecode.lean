import TorrentEngine.BencodeData
import TorrentEngine.Library.Decimal

/-! `ben::decode`: the decoders over a shared cursor. Each returns what it decoded, if anything, and the
source with the cursor where the decoder left it. The decoder of nested values is passed to those of
lists and dictionaries, and `any` ties the knot one nesting level at a time. -/

namespace TorrentEngine.Bencode

open OrderedEntries

/-- `source_t`. -/
structure Source where
  source : List Byte
  cursor : Nat
  deriving DecidableEq

namespace Source

def undecoded (e : Source) : List Byte := e.source.drop e.cursor

def advance (e : Source) (bytes : Nat) : Source := { e with cursor := e.cursor + bytes }

end Source

/-- `find_first_of`; `none` is `npos`. -/
def findFirstOf (view : List Byte) (c : Byte) : Option Nat := view.findIdx? (· == c)

/-- `std::from_chars` for an `int64_t` in base 10: an optional minus sign and the longest run of digits,
with the characters left over. There is no result without a digit, or out of range. -/
def fromChars (str : List Byte) : Option (Int64 × List Byte) :=
  let negative := str.head? = some Decimal.minus
  let body := if negative then str.tail else str
  let digits := body.takeWhile Decimal.isDigit
  let number : Int := if negative then -(Decimal.value digits : Int) else Decimal.value digits
  if digits = [] then none
  else if number < -2 ^ 63 ∨ 2 ^ 63 ≤ number then none
  else some (Int64.ofInt number, body.dropWhile Decimal.isDigit)

def getNumberIfValid (str : List Byte) : Option Int64 :=
  if str = [] then none
  else if str.head? = some (ascii '0') ∧ str.length ≠ 1 then none
  else if 2 ≤ str.length ∧ [ascii '-', ascii '0'] <+: str then none
  else match fromChars str with
    | some (decode, []) => some decode
    | _ => none

abbrev Decoder := Source → Option Data × Source

namespace Decode

/-- The declared length has no sign, so its conversion to `size_t` keeps its value. -/
def string : Decoder := fun e =>
  let encodeBegin := e.cursor
  let view := e.undecoded
  if view.length < 2 then (none, e)
  else match findFirstOf view (ascii ':') with
    | none => (none, e)
    | some separatorIndex =>
        let lengthString := view.take separatorIndex
        let stringBegin := separatorIndex + 1
        if lengthString.head? = some (ascii '-') then (none, e)
        else match getNumberIfValid lengthString with
          | none => (none, e)
          | some declaredSize =>
              if declaredSize.toInt.toNat > view.length - stringBegin then (none, e)
              else
                let actualString : ByteString :=
                  ⟨(view.drop stringBegin).take declaredSize.toInt.toNat,
                    (List.length_take_le _ _).trans_lt (by have := declaredSize.toInt_lt; omega)⟩
                let e' := e.advance (stringBegin + declaredSize.toInt.toNat)
                (some (.string actualString ⟨encodeBegin, e'.cursor - encodeBegin⟩), e')

def integer : Decoder := fun e =>
  if e.undecoded.head? ≠ some (ascii 'i') then (none, e)
  else
    let encodeBegin := e.cursor
    let e' := e.advance 1
    match findFirstOf e'.undecoded (ascii 'e') with
    | none => (none, e')
    | some endIndex =>
        if endIndex = 0 then (none, e')
        else match getNumberIfValid (e'.undecoded.take endIndex) with
          | none => (none, e')
          | some decodeNumber =>
              let e'' := e'.advance (endIndex + 1)
              (some (.integer decodeNumber ⟨encodeBegin, e''.cursor - encodeBegin⟩), e'')

/-- The `while` loop of `list`. Every turn reads a byte, so `turns` never runs out. -/
def listLoop (any : Decoder) : Nat → List Data → Source → Option (List Data) × Source
  | 0, _, e => (none, e)
  | turns + 1, list, e =>
      if e.undecoded = [] ∨ e.undecoded.head? = some (ascii 'e') then (some list, e)
      else match any e with
        | (none, e') => (none, e')
        | (some bendecoded, e') => listLoop any turns (list ++ [bendecoded]) e'

def list (any : Decoder) : Decoder := fun e =>
  if e.undecoded.head? ≠ some (ascii 'l') then (none, e)
  else
    let encodeBegin := e.cursor
    let e' := e.advance 1
    if e'.undecoded = [] then (none, e')
    else match listLoop any e'.undecoded.length [] e' with
      | (none, e'') => (none, e'')
      | (some list, e'') =>
          if e''.undecoded.head? ≠ some (ascii 'e') then (none, e'')
          else
            let e''' := e''.advance 1
            (some (.list list ⟨encodeBegin, e'''.cursor - encodeBegin⟩), e''')

/-- The `while` loop of `dictionary`. Every turn reads a byte, so `turns` never runs out. -/
def dictionaryLoop (any : Decoder) : Nat → List (ByteString × Data) → Source →
    Option (List (ByteString × Data)) × Source
  | 0, _, e => (none, e)
  | turns + 1, dictionary, e =>
      if e.undecoded = [] ∨ e.undecoded.head? = some (ascii 'e') then (some dictionary, e)
      else match string e with
        | (some (.string key _), e') =>
            match any e' with
            | (none, e'') => (none, e'')
            | (some val, e'') =>
                match tryEmplace key val dictionary with
                | none => (none, e'')
                | some dictionary' => dictionaryLoop any turns dictionary' e''
        | (_, e') => (none, e')

def dictionary (any : Decoder) : Decoder := fun e =>
  if e.undecoded.head? ≠ some (ascii 'd') then (none, e)
  else
    let encodeBegin := e.cursor
    let e' := e.advance 1
    if e'.undecoded = [] then (none, e')
    else match dictionaryLoop any e'.undecoded.length [] e' with
      | (none, e'') => (none, e'')
      | (some dictionary, e'') =>
          if e''.undecoded.head? ≠ some (ascii 'e') then (none, e'')
          else
            let e''' := e''.advance 1
            (some (.dictionary dictionary ⟨encodeBegin, e'''.cursor - encodeBegin⟩), e''')

/-- `decode::any`, down to `depth` nested values. -/
def any : Nat → Decoder
  | 0 => fun e => (none, e)
  | depth + 1 => fun e =>
      match e.undecoded.head? with
      | none => (none, e)
      | some c =>
          if c = ascii 'i' then integer e
          else if c = ascii 'l' then list (any depth) e
          else if c = ascii 'd' then dictionary (any depth) e
          else string e

/-- A value is never nested deeper than the source has bytes. -/
def input (undecoded : List Byte) : Option Data :=
  match any undecoded.length ⟨undecoded, 0⟩ with
  | (some resolve, source) => if source.cursor ≠ undecoded.length then none else some resolve
  | (none, _) => none

end Decode

end TorrentEngine.Bencode
