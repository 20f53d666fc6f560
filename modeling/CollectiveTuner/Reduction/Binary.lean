import CollectiveTuner.Reduction

/-!
# Binary floating-point arithmetic

`FloatArithmetic.binary` combines IEEE 754 numbers given by their bit patterns. Minimum and
maximum return the other operand when one is not a number.
-/

namespace CollectiveTuner.FloatArithmetic

/-- Combines two numbers of the binary64 format. -/
def onDouble (op : FloatOp) (a b : Float) : Float :=
  match op with
  | .sum => a + b
  | .prod => a * b
  | .min => if a.isNaN then b else if b < a then b else a
  | .max => if a.isNaN then b else if a < b then b else a

/-- Combines two numbers of the binary32 format. -/
def onSingle (op : FloatOp) (a b : Float32) : Float32 :=
  match op with
  | .sum => a + b
  | .prod => a * b
  | .min => if a.isNaN then b else if b < a then b else a
  | .max => if a.isNaN then b else if a < b then b else a

/-- Arithmetic of the binary32 and binary64 formats on bit patterns. -/
def binary : FloatArithmetic where
  single op a b :=
    (onSingle op (Float32.ofBits (UInt32.ofBitVec a))
      (Float32.ofBits (UInt32.ofBitVec b))).toBits.toBitVec
  double op a b :=
    (onDouble op (Float.ofBits (UInt64.ofBitVec a))
      (Float.ofBits (UInt64.ofBitVec b))).toBits.toBitVec

end CollectiveTuner.FloatArithmetic
