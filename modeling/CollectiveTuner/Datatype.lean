/-!
# Element types and reduce operations

A message is an array of little-endian elements of one `Datatype`. A `ReduceOp` combines two
elements of the same type into one.
-/

namespace CollectiveTuner

/-- The type of the elements in a buffer. -/
inductive Datatype
  | float32
  | float64
  | int8
  | int32
  | int64
  | uint8
  | uint32
  | uint64
  deriving DecidableEq, Repr

namespace Datatype

/-- All element types, in the order of their codes. -/
def all : List Datatype :=
  [float32, float64, int8, int32, int64, uint8, uint32, uint64]

/-- The position of the type in `all`. -/
def code : Datatype → Nat
  | float32 => 0
  | float64 => 1
  | int8 => 2
  | int32 => 3
  | int64 => 4
  | uint8 => 5
  | uint32 => 6
  | uint64 => 7

/-- Bytes in one element. -/
def size : Datatype → Nat
  | float32 | int32 | uint32 => 4
  | float64 | int64 | uint64 => 8
  | int8 | uint8 => 1

/-- The short name of the type. -/
def name : Datatype → String
  | float32 => "f32"
  | float64 => "f64"
  | int8 => "i8"
  | int32 => "i32"
  | int64 => "i64"
  | uint8 => "u8"
  | uint32 => "u32"
  | uint64 => "u64"

/-- The capitalised name of the type, as diagnostics write it. -/
def label : Datatype → String
  | float32 => "F32"
  | float64 => "F64"
  | int8 => "I8"
  | int32 => "I32"
  | int64 => "I64"
  | uint8 => "U8"
  | uint32 => "U32"
  | uint64 => "U64"

/-- Integer types support every reduce operation. -/
def isInteger : Datatype → Bool
  | float32 | float64 => false
  | _ => true

/-- No type has elements without bytes. -/
theorem size_pos (dtype : Datatype) : 0 < dtype.size := by
  cases dtype <;> decide

end Datatype

/-- How two elements are combined. -/
inductive ReduceOp
  | sum
  | prod
  | min
  | max
  | bitOr
  deriving DecidableEq, Repr

namespace ReduceOp

/-- All reduce operations. -/
def all : List ReduceOp := [sum, prod, min, max, bitOr]

/-- The short name of the operation. -/
def name : ReduceOp → String
  | sum => "sum"
  | prod => "prod"
  | min => "min"
  | max => "max"
  | bitOr => "bor"

/-- The capitalised name of the operation, as diagnostics write it. -/
def label : ReduceOp → String
  | sum => "Sum"
  | prod => "Prod"
  | min => "Min"
  | max => "Max"
  | bitOr => "BitOr"

end ReduceOp

end CollectiveTuner
