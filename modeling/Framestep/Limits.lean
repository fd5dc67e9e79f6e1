/-!
# Machine words, allocations and checked access

Counts and sizes are natural numbers here.  The bounds that a 64-bit machine
puts on them are stated where they matter, by the constants below.  Operations
that would fail on such a machine have an optional result: `minus?` below
zero, `modulo?` by zero, `portion?` and `overwrite?` out of range.  A caller
that never sees `none` has therefore shown its indices to be in range.

Storage that an operation attempts to allocate may be denied at any time: how
much there is of it comes with the operation, as its `Memory`.  The batch buffer of a
session and the rows of a frontend are taken for granted, and are bounded by
`maxAllocation` alone.
-/

namespace Framestep

/-- The number of values of a machine word. -/
def wordCount : Nat := Nat.pow 2 64

def maxWord : Nat := Nat.pow 2 64 - 1

/-- The largest number of bytes that one allocation may ask for. -/
def maxAllocation : Nat := Nat.pow 2 63 - 1

/-- What an attempt to allocate storage finds. -/
structure Memory where
  /-- The most bytes that the attempt can be given. -/
  largest : Nat := maxAllocation
  deriving DecidableEq, Repr

namespace Memory

/-- Memory that grants whatever may be asked of it. -/
def ample : Memory := {}

/-- The most bytes that are granted: what there is, and no more than one allocation
may ask for. -/
def limit (memory : Memory) : Nat := min memory.largest maxAllocation

theorem limit_le (memory : Memory) : memory.limit ≤ maxAllocation := Nat.min_le_right ..

end Memory

def maxInt32 : Int := 2147483647

def minInt32 : Int := -2147483648

/-- Addition of words that stops at the largest word. -/
def saturatingAdd (a b : Nat) : Nat := min (a + b) maxWord

def clampInt32 (n : Int) : Int := max minInt32 (min n maxInt32)

/-- The signed 32-bit number with the same low 32 bits. -/
def wrapInt32 (n : Nat) : Int :=
  let low := n % Nat.pow 2 32
  if low < Nat.pow 2 31 then Int.ofNat low else Int.ofNat low - Int.ofNat (Nat.pow 2 32)

/-- Subtraction that fails below zero. -/
def minus? (a b : Nat) : Option Nat :=
  if b ≤ a then some (a - b) else none

/-- The remainder of a division that fails for the divisor zero. -/
def modulo? (a b : Nat) : Option Nat :=
  if b = 0 then none else some (a % b)

/-- The first `count` elements of an array, or all there are. -/
def firstOf {α : Type} (xs : Array α) (count : Nat) : Array α :=
  if xs.size ≤ count then xs else xs.extract 0 count

/-- The elements from `start` up to `stop` of a list, if it reaches that far. -/
def portion? {α : Type} (xs : List α) (start stop : Nat) : Option (List α) :=
  if start ≤ stop ∧ stop ≤ xs.length then some ((xs.take stop).drop start) else none

/-- The elements from `start` up to `stop` of an array, if it reaches that far. -/
def stretch? {α : Type} (xs : Array α) (start stop : Nat) : Option (List α) :=
  if start ≤ stop ∧ stop ≤ xs.size then some (xs.extract start stop).toList else none

/-- The array with `ys` written over its cells from `start` on. -/
def overwriteFrom {α : Type} (xs : Array α) (start : Nat) : List α → Array α
  | [] => xs
  | y :: ys => overwriteFrom (xs.setIfInBounds start y) (start + 1) ys

/-- Writes `ys` over the cells from `start` up to `stop`.  Fails unless these
cells exist and `ys` has exactly one element for each. -/
def overwrite? {α : Type} (xs : Array α) (start stop : Nat) (ys : List α) :
    Option (Array α) :=
  if start ≤ stop ∧ stop ≤ xs.size ∧ ys.length = stop - start then
    some (overwriteFrom xs start ys)
  else
    none

end Framestep
