import CollectiveTuner.Layout

/-!
# Layouts on a machine

The layouts of blocks as they are computed with limited resources. Shares and displacements are
added up and multiplied in words, and padding is written element by element within its buffer. A
step that leaves its word or the buffer has no result.
-/

namespace CollectiveTuner

/-- Copies the first `length` bytes of a buffer to `target`. Both places have to lie in the
buffer. -/
def Bytes.copyFirst (buffer : Bytes) (length target : Nat) : Option Bytes :=
  if length ≤ buffer.length ∧ target + length ≤ buffer.length then
    some (buffer.overwrite target (buffer.take length))
  else none

namespace Layout

/-- A sum or a product in a word that has so many values. -/
def inWord (values result : Nat) : Option Nat :=
  if result < values then some result else none

/-- The share of part `i`, with every sum and product in a word of 64 bits. -/
def roundRobinShareInWords (parts count chunk i : Nat) : Option Nat := do
  let chunks := count / chunk
  let turn := chunks % parts
  let whole ← inWord UInt64.size (chunk * (chunks / parts))
  if i < turn then inWord UInt64.size (whole + chunk)
  else if i = turn then inWord UInt64.size (whole + count % chunk)
  else some whole

/-- The shares of all parts, computed in words. The number of chunks is divided by the number of
parts, so that there is no result without parts. A count that is too large is an error before
that. -/
def roundRobinCountsInWords (parts count chunk : Nat) : ExceptT Error Option (List Nat) := do
  let _ ← toCount count
  if parts = 0 then ExceptT.lift none
  else
    (List.range parts).mapM fun i => do
      toCount (← roundRobinShareInWords parts count (max chunk 1) i)

/-- Where each block starts when the first of them starts at `offset`, with every sum in a word of
32 bits. The end of the last block is computed as well. -/
def displacementsInWords (offset : Nat) : List Nat → Option (List Nat)
  | [] => some []
  | count :: rest => do
    let next ← inWord UInt32.size (offset + count)
    let displs ← displacementsInWords next rest
    some (offset :: displs)

/-- The padded count, with its sum in a word of 64 bits. -/
def paddedCountInWords (count parts : Nat) : Option Nat :=
  inWord UInt64.size (count + padding count parts)

/-- Overwrites the elements from `count` up to `padded` in their buffer, one after another, by what
its first element is then. -/
def padInPlace (count padded extent : Nat) (buffer : Bytes) : Option Bytes :=
  if count = 0 then some buffer
  else
    (List.range' count (padded - count)).foldlM
      (fun buffer i => buffer.copyFirst extent (i * extent)) buffer

end Layout

end CollectiveTuner
