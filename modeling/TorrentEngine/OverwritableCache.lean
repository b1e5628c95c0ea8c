import Mathlib.Logic.Function.Basic

/-! `overwritable_cache<T, N>`: a ring of at most `N` values whose pushes overwrite the stalest value
when it is full. -/

namespace TorrentEngine

variable {T : Type*} {N : Nat}

structure OverwritableCache (T : Type*) (N : Nat) where
  cache : Nat → T
  write : Nat
  read : Nat
  size : Nat

namespace OverwritableCache

def initial (N : Nat) (value : T) : OverwritableCache T N := ⟨fun _ => value, 0, 0, 0⟩

def plusMask (N num : Nat) : Nat := if num + 1 = N then 0 else num + 1

def minusMask (N num : Nat) : Nat := if num = 0 then N - 1 else num - 1

def isEmpty (c : OverwritableCache T N) : Bool := c.size == 0

def push (c : OverwritableCache T N) (val : T) : OverwritableCache T N :=
  let c : OverwritableCache T N :=
    { c with cache := Function.update c.cache c.write val, write := plusMask N c.write }
  if c.size < N then { c with size := c.size + 1 } else { c with read := plusMask N c.read }

def freshPop (c : OverwritableCache T N) : Option (T × OverwritableCache T N) :=
  if c.isEmpty then none
  else
    let write := minusMask N c.write
    some (c.cache write, { c with write, size := c.size - 1 })

def stalePop (c : OverwritableCache T N) : Option (T × OverwritableCache T N) :=
  if c.isEmpty then none
  else some (c.cache c.read, { c with size := c.size - 1, read := plusMask N c.read })

end OverwritableCache

end TorrentEngine
