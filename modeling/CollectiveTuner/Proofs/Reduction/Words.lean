import CollectiveTuner.Reduction
import Mathlib

/-!
# Words as integers

A word denotes an integer, with or without a sign. Sums and products of words are exact up to a
multiple of the number of words, minima and maxima are those of the integers, and the bitwise
operation works on each bit. It follows that all five operations are commutative and associative.
-/

namespace CollectiveTuner.Reduction

variable {width : Nat} {signed : Bool} {op : ReduceOp}

/-! ### The value of a word -/

/-- The integer that a word denotes. -/
def wordValue (signed : Bool) (word : BitVec width) : Int :=
  if signed then word.toInt else word.toNat

/-- The word of a value is the word that has it. -/
theorem ofInt_wordValue (signed : Bool) (word : BitVec width) :
    BitVec.ofInt width (wordValue signed word) = word := by
  cases signed with
  | true => exact BitVec.ofInt_toInt
  | false => exact (BitVec.ofInt_natCast _ _).trans (by rw [BitVec.ofNat_toNat, BitVec.setWidth_eq])

/-- Different words have different values. -/
theorem wordValue_inj {a b : BitVec width} : wordValue signed a = wordValue signed b ↔ a = b := by
  refine ⟨fun hvalue => ?_, congrArg _⟩
  rw [← ofInt_wordValue signed a, hvalue, ofInt_wordValue]

/-- Integers have the same low bits when they agree modulo the number of words. -/
theorem ofInt_eq_ofInt_iff {x y : Int} :
    BitVec.ofInt width x = BitVec.ofInt width y ↔ x ≡ y [ZMOD 2 ^ width] := by
  have hpos : (0 : Int) < 2 ^ width := by positivity
  have hx := Int.emod_nonneg x hpos.ne'
  have hy := Int.emod_nonneg y hpos.ne'
  rw [← BitVec.toNat_inj, BitVec.toNat_ofInt, BitVec.toNat_ofInt, Int.ModEq]
  push_cast
  omega

/-- The order in which words are compared is that of their values. -/
theorem less_iff {a b : BitVec width} :
    (if signed then BitVec.slt else BitVec.ult) a b = true ↔
      wordValue signed a < wordValue signed b := by
  cases signed with
  | true => exact BitVec.slt_iff_toInt_lt
  | false => simp [wordValue, BitVec.ult]

/-! ### Operations on words -/

/-- What an operation on words has to give. -/
def IsWordResult (signed : Bool) (op : ReduceOp) (a b result : BitVec width) : Prop :=
  match op with
  | .sum => wordValue signed result ≡ wordValue signed a + wordValue signed b [ZMOD 2 ^ width]
  | .prod => wordValue signed result ≡ wordValue signed a * wordValue signed b [ZMOD 2 ^ width]
  | .min => wordValue signed result = min (wordValue signed a) (wordValue signed b)
  | .max => wordValue signed result = max (wordValue signed a) (wordValue signed b)
  | .bitOr => ∀ i < width, result.getLsbD i = (a.getLsbD i || b.getLsbD i)

/-- The smaller of two words has the smaller value. -/
theorem wordValue_min (a b : BitVec width) :
    wordValue signed (ReduceOp.min.onWord signed a b) =
      min (wordValue signed a) (wordValue signed b) := by
  unfold ReduceOp.onWord
  dsimp only
  by_cases hless : wordValue signed b < wordValue signed a
  · rw [if_pos (less_iff.mpr hless), min_eq_right hless.le]
  · rw [if_neg (mt less_iff.mp hless), min_eq_left (not_lt.mp hless)]

/-- The larger of two words has the larger value. -/
theorem wordValue_max (a b : BitVec width) :
    wordValue signed (ReduceOp.max.onWord signed a b) =
      max (wordValue signed a) (wordValue signed b) := by
  unfold ReduceOp.onWord
  dsimp only
  by_cases hless : wordValue signed a < wordValue signed b
  · rw [if_pos (less_iff.mpr hless), max_eq_right hless.le]
  · rw [if_neg (mt less_iff.mp hless), max_eq_left (not_lt.mp hless)]

/-- The result of an operation on words is determined, and it is what the operation gives. -/
theorem isWordResult_iff {a b result : BitVec width} :
    IsWordResult signed op a b result ↔ result = op.onWord signed a b := by
  cases op with
  | sum =>
    rw [IsWordResult, ← ofInt_eq_ofInt_iff, BitVec.ofInt_add]
    simp only [ofInt_wordValue, ReduceOp.onWord]
  | prod =>
    rw [IsWordResult, ← ofInt_eq_ofInt_iff, BitVec.ofInt_mul]
    simp only [ofInt_wordValue, ReduceOp.onWord]
  | min => rw [IsWordResult, ← wordValue_min, wordValue_inj]
  | max => rw [IsWordResult, ← wordValue_max, wordValue_inj]
  | bitOr =>
    simp only [IsWordResult, ReduceOp.onWord, BitVec.eq_of_getLsbD_eq_iff, BitVec.getLsbD_or]

instance : Std.Commutative (@ReduceOp.onWord width op signed) where
  comm a b := by
    cases op with
    | sum => exact BitVec.add_comm a b
    | prod => exact BitVec.mul_comm a b
    | min => rw [← @wordValue_inj width signed, wordValue_min, wordValue_min, min_comm]
    | max => rw [← @wordValue_inj width signed, wordValue_max, wordValue_max, max_comm]
    | bitOr => exact BitVec.or_comm a b

instance : Std.Associative (@ReduceOp.onWord width op signed) where
  assoc a b c := by
    cases op with
    | sum => exact BitVec.add_assoc a b c
    | prod => exact BitVec.mul_assoc a b c
    | min =>
      rw [← @wordValue_inj width signed]
      simp only [wordValue_min, min_assoc]
    | max =>
      rw [← @wordValue_inj width signed]
      simp only [wordValue_max, max_assoc]
    | bitOr => exact BitVec.or_assoc a b c

/-! ### Operations on elements -/

variable {arithmetic : FloatArithmetic} {dtype : Datatype}

/-- What an operation on elements has to give. Floating-point elements have no bitwise one. -/
def IsCombination (arithmetic : FloatArithmetic) (dtype : Datatype) (op : ReduceOp) :
    BitVec (8 * dtype.size) → BitVec (8 * dtype.size) → BitVec (8 * dtype.size) → Prop :=
  match dtype with
  | .float32 => fun a b result =>
    ∃ floatOp, op.onFloat? = some floatOp ∧ result = arithmetic.single floatOp a b
  | .float64 => fun a b result =>
    ∃ floatOp, op.onFloat? = some floatOp ∧ result = arithmetic.double floatOp a b
  | .int8 | .int32 | .int64 => IsWordResult true op
  | .uint8 | .uint32 | .uint64 => IsWordResult false op

/-- Just what the combiner gives is a combination of two elements. -/
theorem isCombination_iff
    {combine : BitVec (8 * dtype.size) → BitVec (8 * dtype.size) → BitVec (8 * dtype.size)}
    (hcombine : combiner? arithmetic dtype op = some combine)
    {a b result : BitVec (8 * dtype.size)} :
    IsCombination arithmetic dtype op a b result ↔ result = combine a b := by
  cases dtype with
  | float32 | float64 =>
    obtain ⟨floatOp, hop, rfl⟩ := Option.map_eq_some_iff.mp hcombine
    simp [IsCombination, hop]
  | int8 | int32 | int64 | uint8 | uint32 | uint64 =>
    obtain rfl := Option.some.inj hcombine
    exact isWordResult_iff

end CollectiveTuner.Reduction
