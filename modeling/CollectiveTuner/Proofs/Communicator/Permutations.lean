import CollectiveTuner.Proofs.Communicator.Folds
import CollectiveTuner.Proofs.Reduction.Words

/-!
# Contributions in any order

The operations on integers are commutative and associative, so a combination of vectors of integers
does not depend on their order. An operation that combines the elements of all ranks therefore
gives every rank the same when the ranks exchange what they contribute.
-/

namespace CollectiveTuner

namespace Reduction

open Bytes (element)

variable {arithmetic : FloatArithmetic} {dtype : Datatype} {op : ReduceOp}

/-- Values can be combined in any order. -/
theorem leftFold_perm {α : Type} {combine : α → α → α} [Std.Commutative combine]
    [Std.Associative combine] {values others : List α} (hperm : values.Perm others) :
    leftFold combine values = leftFold combine others := by
  induction hperm with
  | nil => rfl
  | cons value hrest => exact congrArg some (List.Perm.foldl_op_eq hrest)
  | swap first second rest =>
    have hswap : combine second first = combine first second := Std.Commutative.comm second first
    rw [leftFold, leftFold, List.foldl_cons, List.foldl_cons, hswap]
  | trans _ _ ih ih' => exact ih.trans ih'

/-- Every combination of integers is defined. -/
theorem supported_of_integer (op : ReduceOp) (hinteger : dtype.isInteger = true) :
    Supported dtype op := by
  rintro ⟨-, hfloat⟩
  rw [hinteger] at hfloat
  cases hfloat

/-- How integers are combined depends neither on their order nor on their grouping. -/
theorem exists_lawful_combiner (arithmetic : FloatArithmetic) (op : ReduceOp)
    (hinteger : dtype.isInteger = true) :
    ∃ combine, combiner? arithmetic dtype op = some combine ∧ Std.Commutative combine ∧
      Std.Associative combine := by
  cases dtype with
  | float32 | float64 => cases hinteger
  | int8 | int32 | int64 | uint8 | uint32 | uint64 =>
    exact ⟨_, rfl, inferInstance, inferInstance⟩

/-- Vectors of integers can be combined in any order. -/
theorem mergeAll_perm (hinteger : dtype.isInteger = true) {count : Nat}
    {vectors others : List Bytes}
    (hlength : ∀ vector ∈ vectors, vector.length = count * dtype.size)
    (hperm : vectors.Perm others) :
    mergeAll arithmetic dtype op count vectors = mergeAll arithmetic dtype op count others := by
  rcases eq_or_ne vectors [] with rfl | hvectors
  · rw [List.nil_perm.mp hperm]
  have hothers : others ≠ [] := fun hnil => hvectors (hperm.trans (.of_eq hnil)).eq_nil
  obtain ⟨combine, hcombine, _, _⟩ := exists_lawful_combiner arithmetic op hinteger
  have hfirst := @length_mergeAll arithmetic dtype op count vectors hvectors hlength
  have hsecond := @length_mergeAll arithmetic dtype op count others hothers fun vector hvector =>
    hlength vector (hperm.mem_iff.mpr hvector)
  have hsame := Bytes.take_eq_of_elements hfirst.ge hsecond.ge fun i hi => Option.some.inj <|
    (element_mergeAll hcombine hi hvectors).trans <|
      (leftFold_perm (hperm.map _)).trans (element_mergeAll hcombine hi hothers).symm
  rwa [List.take_of_length_le hfirst.le, List.take_of_length_le hsecond.le] at hsame

end Reduction

namespace Native

open Transport Reduction

variable {n : Nat} {arithmetic : FloatArithmetic} {dtype : Datatype} {op : ReduceOp}
  {inputs outputs : Fin n → Bytes}

/-- When all ranks contribute, it does not matter which of them contributes what. -/
theorem mergeAll_comp_perm (hinteger : dtype.isInteger = true) {count : Nat}
    {vector : Fin n → Bytes}
    (hlength : ∀ me, (vector me).length = count * dtype.size) (σ : Equiv.Perm (Fin n)) :
    mergeAll arithmetic dtype op count ((List.finRange n).map (vector ∘ σ)) =
      mergeAll arithmetic dtype op count ((List.finRange n).map vector) := by
  refine mergeAll_perm hinteger (fun found hfound => ?_) ?_
  · obtain ⟨me, -, rfl⟩ := List.mem_map.mp hfound
    exact hlength (σ me)
  · rw [← List.map_map]
    exact (Equiv.Perm.map_finRange_perm σ).map vector

/-- Which rank holds which vector does not matter to an exact combination of all of them. -/
theorem combined_comp_perm (hinteger : dtype.isInteger = true) {count : Nat}
    (hinputs : ∀ me, count * dtype.size ≤ (inputs me).length) (σ : Equiv.Perm (Fin n)) :
    combined arithmetic dtype op count (inputs ∘ σ) (List.finRange n) =
      combined arithmetic dtype op count inputs (List.finRange n) :=
  @mergeAll_comp_perm n arithmetic dtype op hinteger count
    (fun me => (inputs me).slice 0 (count * dtype.size))
    (fun me => Bytes.length_slice_zero (hinputs me)) σ

namespace Combination

variable {combination : Combination n}

/-- A rank that gets a result gets the combination of what all ranks contribute. -/
def TakesAll : Combination n → Prop
  | scan _ | exscan _ => False
  | _ => True

/-- Where everyone takes all vectors, a rank gets nothing or the combination of all ranks. -/
theorem TakesAll.contributors_eq (hall : combination.TakesAll) (me : Fin n) :
    combination.contributors me = [] ∨ combination.contributors me = List.finRange n := by
  cases combination with
  | reduce count root => exact (ite_eq_or_eq _ _ _).symm
  | allreduce | reduceScatter | reduceScatterBlock => exact .inr rfl
  | scan | exscan => exact hall.elim

/-- Vectors of the right length still are so when the ranks exchange them. -/
theorem Fits.comp_perm {size : Nat} (hfits : combination.Fits size inputs outputs)
    (σ : Equiv.Perm (Fin n)) : combination.Fits size (inputs ∘ σ) outputs :=
  ⟨hfits.proper, fun me => hfits.inputs (σ me), hfits.outputs⟩

/-- The result of a rank does not depend on who contributes what. -/
theorem result_comp_perm (hinteger : dtype.isInteger = true) (hall : combination.TakesAll)
    (hfits : combination.Fits dtype.size inputs outputs) (σ : Equiv.Perm (Fin n)) (me : Fin n) :
    combination.result arithmetic dtype op (inputs ∘ σ) me =
      combination.result arithmetic dtype op inputs me := by
  rcases hall.contributors_eq me with hnone | hevery
  · rw [result, result, hnone, List.map_nil, List.map_nil]
  · rw [result, result, hevery]
    exact @mergeAll_comp_perm n arithmetic dtype op hinteger _
      (fun me' => (inputs me').slice (combination.first me * dtype.size)
        (combination.length me * dtype.size))
      (fun me' => Bytes.length_slice (hfits.inside me me')) σ

/-- **Who contributes what to a combination of integers does not matter.** With the inputs of the
ranks exchanged, every rank succeeds on every schedule and ends with the same buffer. -/
theorem exists_after_perm (arithmetic : FloatArithmetic) (op : ReduceOp)
    (hinteger : dtype.isInteger = true) (hall : combination.TakesAll)
    (hfits : combination.Fits dtype.size inputs outputs) (σ : Equiv.Perm (Fin n)) :
    ∃ after : Fin n → Bytes,
      Settles (fun me => answer arithmetic me
        ⟨combination.primitive dtype op, inputs me, outputs me⟩) (fun me => ⟨.ok (), after me⟩) ∧
      Settles (fun me => answer arithmetic me
        ⟨combination.primitive dtype op, inputs (σ me), outputs me⟩)
        fun me => ⟨.ok (), after me⟩ := by
  have hsupported := supported_of_integer op hinteger
  have hresult := @result_comp_perm n arithmetic dtype op inputs outputs combination hinteger hall
    hfits σ
  have hexchanged := @Fits.together_result n combination arithmetic dtype op (inputs ∘ σ) outputs
    hsupported (hfits.comp_perm σ)
  simp only [hresult] at hexchanged
  exact ⟨_, @Together.settles_answer n arithmetic
      (fun me => ⟨combination.primitive dtype op, inputs me, outputs me⟩) _ _
      (hfits.together_result hsupported),
    @Together.settles_answer n arithmetic
      (fun me => ⟨combination.primitive dtype op, inputs (σ me), outputs me⟩) _ _ hexchanged⟩

end Combination

end Native

end CollectiveTuner
