import CollectiveTuner.Buffer
import CollectiveTuner.Machine

/-!
# Element-wise reduction

`accumulate` combines the first elements of two buffers. Integer elements are words that wrap
around; the arithmetic of floating-point elements is a parameter, so nothing here depends on
how floats round. `accumulateInPlace` does the same in place and on a machine: the length that it
needs is a word, and no element outside its buffers can be read.
-/

namespace CollectiveTuner

/-- An operation that floating-point elements support. -/
inductive FloatOp
  | sum
  | prod
  | min
  | max
  deriving DecidableEq, Repr

/-- How floating-point elements, given by their bit patterns, are combined. -/
structure FloatArithmetic where
  /-- Combines elements of four bytes. -/
  single : FloatOp → BitVec 32 → BitVec 32 → BitVec 32
  /-- Combines elements of eight bytes. -/
  double : FloatOp → BitVec 64 → BitVec 64 → BitVec 64

namespace ReduceOp

/-- The floating-point reading of an operation. There is none for the bitwise one. -/
def onFloat? : ReduceOp → Option FloatOp
  | sum => some .sum
  | prod => some .prod
  | min => some .min
  | max => some .max
  | bitOr => none

/-- Combines two words. Sum and product wrap around, and minimum and maximum take the signed
or the unsigned order. -/
def onWord {width : Nat} (op : ReduceOp) (signed : Bool) (a b : BitVec width) : BitVec width :=
  let less := if signed then BitVec.slt else BitVec.ult
  match op with
  | sum => a + b
  | prod => a * b
  | min => if less b a then b else a
  | max => if less a b then b else a
  | bitOr => a ||| b

end ReduceOp

namespace Reduction

/-- Fails for the one unsupported combination: bitwise or on a floating-point type. -/
def checkSupported (dtype : Datatype) (op : ReduceOp) : Except Error Unit :=
  if op = .bitOr ∧ dtype.isInteger = false then throw (.unsupportedDatatype dtype "bor")
  else pure ()

/-- How two elements, given by their bit patterns, are combined. -/
def combiner? (arithmetic : FloatArithmetic) (dtype : Datatype) (op : ReduceOp) :
    Option (BitVec (8 * dtype.size) → BitVec (8 * dtype.size) → BitVec (8 * dtype.size)) :=
  match dtype with
  | .float32 => op.onFloat?.map arithmetic.single
  | .float64 => op.onFloat?.map arithmetic.double
  | .int8 | .int32 | .int64 => some (op.onWord true)
  | .uint8 | .uint32 | .uint64 => some (op.onWord false)

/-- Replaces each of the first `count` elements of `target` by its combination with the
element of `source` at the same place. -/
def combineElements {size : Nat}
    (combine : BitVec (8 * size) → BitVec (8 * size) → BitVec (8 * size)) :
    Nat → Bytes → Bytes → Bytes
  | 0, target, _ => target
  | count + 1, target, source =>
    let a := BitVec.ofNat (8 * size) (Bytes.toNatLE (target.take size))
    let b := BitVec.ofNat (8 * size) (Bytes.toNatLE (source.take size))
    Bytes.ofNatLE size (combine a b).toNat ++
      combineElements combine count (target.drop size) (source.drop size)

/-- Combines the first `count` elements of `source` into those of `target`. The length that this
needs is a number. -/
def accumulate (arithmetic : FloatArithmetic) (dtype : Datatype) (op : ReduceOp) (count : Nat)
    (target source : Bytes) : Except Error Bytes := do
  checkSupported dtype op
  let needed := count * dtype.size
  if target.length < needed ∨ source.length < needed then
    throw (.bufferSizeMismatch needed (min target.length source.length))
  match combiner? arithmetic dtype op with
  | some combine => pure (combineElements combine count target source)
  | none => throw (.unsupportedDatatype dtype "reduce")

/-- A computation that overwrites a buffer. What the buffer holds when it fails, or when it stops
without a result, is left behind. -/
abbrev InPlace := ExceptT Error (OptionT (StateM Bytes))

namespace InPlace

variable {α : Type}

/-- What a computation comes to on a buffer, if it does not stop, and what it leaves there. -/
def runOn (action : InPlace α) (buffer : Bytes) : Option (Except Error α) × Bytes :=
  action.run.run.run buffer

/-- Goes on with a value that may be missing, and stops without it. -/
def ofOption (value : Option α) : InPlace α :=
  ExceptT.lift (OptionT.mk (pure value))

end InPlace

/-- The element that starts at a place of a buffer, if it lies inside. -/
def readElement? (dtype : Datatype) (buffer : Bytes) (start : Nat) :
    Option (BitVec (8 * dtype.size)) :=
  if start + dtype.size ≤ buffer.length then
    some (BitVec.ofNat (8 * dtype.size) (Bytes.toNatLE ((buffer.drop start).take dtype.size)))
  else none

/-- Replaces element `i` of the buffer by its combination with the element of `source` at the same
place. It stops if one of the two buffers has no such element. -/
def accumulateElement (arithmetic : FloatArithmetic) (dtype : Datatype) (op : ReduceOp)
    (source : Bytes) (i : Nat) : InPlace Unit := do
  let start := i * dtype.size
  let buffer ← get
  let a ← InPlace.ofOption (readElement? dtype buffer start)
  let b ← InPlace.ofOption (readElement? dtype source start)
  match combiner? arithmetic dtype op with
  | some combine => set (buffer.overwrite start (Bytes.ofNatLE dtype.size (combine a b).toNat))
  | none => throw (.unsupportedDatatype dtype "reduce")

/-- Combines the first `count` elements of `source` into those of the buffer, one after another and
each in its place. The bytes that this needs are a word, so that a build may stop there or take them
for fewer than they are. -/
def accumulateInPlace (overflow : Overflow) (arithmetic : FloatArithmetic) (dtype : Datatype)
    (op : ReduceOp) (count : Nat) (source : Bytes) : InPlace Unit := do
  MonadExcept.ofExcept (checkSupported dtype op)
  let needed ← InPlace.ofOption (overflow.word (count * dtype.size))
  let buffer ← get
  if buffer.length < needed ∨ source.length < needed then
    throw (.bufferSizeMismatch needed (min buffer.length source.length))
  (List.range count).forM (accumulateElement arithmetic dtype op source)

end Reduction

end CollectiveTuner
