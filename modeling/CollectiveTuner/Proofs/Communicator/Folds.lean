import CollectiveTuner.Proofs.Communicator.Combining
import CollectiveTuner.Proofs.Reduction.Elements

/-!
# What combining elements means

An operation that combines elements has contributors for every rank, and a place in their vectors
where the rank's result lies. Each element of the result is the left fold of the contributors'
elements, in ascending order of their ranks. No law of the combination of two elements is assumed,
so this order decides what the result is.
-/

namespace CollectiveTuner.Native

open Transport Reduction
open Bytes (element)

/-- An operation that combines elements, with its arguments. They are the same on all ranks. -/
inductive Combination (n : Nat)
  | reduce (count : Nat) (root : Fin n)
  | allreduce (count : Nat)
  | reduceScatter (receiveCounts : List Nat)
  | reduceScatterBlock (receiveCount : Nat)
  | scan (count : Nat)
  | exscan (count : Nat)

namespace Combination

variable {n : Nat}

/-- The call of every rank. -/
def primitive (combination : Combination n) (dtype : Datatype) (op : ReduceOp) : Primitive :=
  match combination with
  | reduce count root => .reduce count dtype op root
  | allreduce count => .allreduce count dtype op
  | reduceScatter receiveCounts => .reduceScatter receiveCounts dtype op
  | reduceScatterBlock receiveCount => .reduceScatterBlock receiveCount dtype op
  | scan count => .scan count dtype op
  | exscan count => .exscan count dtype op

/-- The ranks whose elements a rank gets the combination of, ascending. -/
def contributors (combination : Combination n) (me : Fin n) : List (Fin n) :=
  match combination with
  | reduce _ root => if me = root then List.finRange n else []
  | allreduce _ | reduceScatter _ | reduceScatterBlock _ => List.finRange n
  | scan _ => (List.finRange n).filter (· ≤ me)
  | exscan _ => (List.finRange n).filter (· < me)

/-- The first of the elements that a rank gets the combination of. -/
def first (combination : Combination n) (me : Fin n) : Nat :=
  match combination with
  | reduceScatter receiveCounts => (receiveCounts.take me).sum
  | reduceScatterBlock receiveCount => me * receiveCount
  | _ => 0

/-- How many elements the result of a rank has. -/
def length (combination : Combination n) (me : Fin n) : Nat :=
  match combination with
  | reduceScatter receiveCounts => entry receiveCounts me
  | reduce count _ | allreduce count | reduceScatterBlock count | scan count | exscan count => count

/-- How many elements every rank contributes. -/
def contributed (combination : Combination n) : Nat :=
  match combination with
  | reduceScatter receiveCounts => (receiveCounts.take n).sum
  | reduceScatterBlock receiveCount => n * receiveCount
  | reduce count _ | allreduce count | scan count | exscan count => count

/-- There is a count for every rank, and a count of equal blocks fits in a message header. -/
def Proper (combination : Combination n) : Prop :=
  match combination with
  | reduceScatter receiveCounts => n ≤ receiveCounts.length
  | reduceScatterBlock receiveCount => receiveCount < UInt32.size
  | _ => True

/-- The arguments are proper, every rank has what it contributes, and a rank that gets a result
has room for it. -/
structure Fits (combination : Combination n) (size : Nat) (inputs outputs : Fin n → Bytes) :
    Prop where
  proper : combination.Proper
  inputs : ∀ me, combination.contributed * size ≤ (inputs me).length
  outputs : ∀ me, combination.contributors me ≠ [] →
    combination.length me * size ≤ (outputs me).length

/-- What a rank's buffer has to hold in the end: at its start the left folds of the contributors'
elements, in ascending order of the ranks, and behind them what it held before. Without
contributors it holds what it held before throughout. -/
structure Folded (combination : Combination n) {size : Nat}
    (combine : BitVec (8 * size) → BitVec (8 * size) → BitVec (8 * size))
    (inputs outputs : Fin n → Bytes) (me : Fin n) (after : Bytes) : Prop where
  length : after.length = (outputs me).length
  folded : combination.contributors me ≠ [] → ∀ i < combination.length me,
    some (element size after i) = leftFold combine ((combination.contributors me).map
      fun source => element size (inputs source) (combination.first me + i))
  beyond : ∀ i, combination.length me * size ≤ i → after[i]? = (outputs me)[i]?
  untouched : combination.contributors me = [] → after = outputs me

variable {combination : Combination n} {arithmetic : FloatArithmetic} {dtype : Datatype}
  {op : ReduceOp} {inputs outputs : Fin n → Bytes} {me : Fin n}

section

variable {size : Nat} {combine : BitVec (8 * size) → BitVec (8 * size) → BitVec (8 * size)}

/-- There is one buffer only that holds the left folds. -/
theorem Folded.unique {first second : Bytes} (hfits : combination.Fits size inputs outputs)
    (hfirst : combination.Folded combine inputs outputs me first)
    (hsecond : combination.Folded combine inputs outputs me second) : first = second := by
  by_cases hcontributors : combination.contributors me = []
  · rw [hfirst.untouched hcontributors, hsecond.untouched hcontributors]
  · have hroom := hfits.outputs me hcontributors
    have hsame := Bytes.take_eq_of_elements (hroom.trans_eq hfirst.length.symm)
      (hroom.trans_eq hsecond.length.symm) fun i hi => Option.some.inj <|
        (hfirst.folded hcontributors i hi).trans (hsecond.folded hcontributors i hi).symm
    apply List.ext_getElem?
    intro i
    rcases Nat.lt_or_ge i (combination.length me * size) with hi | hi
    · rw [← List.getElem?_take_of_lt hi, hsame, List.getElem?_take_of_lt hi]
    · rw [hfirst.beyond i hi, hsecond.beyond i hi]

end

/-- The combination of what the contributors have for a rank. -/
def result (arithmetic : FloatArithmetic) (combination : Combination n) (dtype : Datatype)
    (op : ReduceOp) (inputs : Fin n → Bytes) (me : Fin n) : Bytes :=
  mergeAll arithmetic dtype op (combination.length me)
    ((combination.contributors me).map fun source =>
      (inputs source).slice (combination.first me * dtype.size)
        (combination.length me * dtype.size))

namespace Fits

/-- A rank's result is a part of what is contributed. -/
theorem stop_le (hfits : combination.Fits dtype.size inputs outputs) (me : Fin n) :
    combination.first me + combination.length me ≤ combination.contributed := by
  cases combination with
  | reduceScatter receiveCounts =>
    have hstop := (Layout.tiles_displacement hfits.proper 1).stop_le me
    simp only [Nat.mul_one] at hstop
    exact hstop
  | reduceScatterBlock receiveCount => exact (Bytes.tiles_uniform n receiveCount).stop_le me
  | _ => exact (Nat.zero_add _).le

/-- The elements that a rank asks for lie inside each buffer of a vector that fits. -/
theorem inside (hfits : combination.Fits dtype.size inputs outputs) (me source : Fin n) :
    combination.first me * dtype.size + combination.length me * dtype.size ≤
      (inputs source).length := by
  rw [← Nat.add_mul]
  exact (Nat.mul_le_mul_right _ (hfits.stop_le me)).trans (hfits.inputs source)

/-- What a rank gets is as long as the elements that it asks for, when anyone contributes. -/
theorem length_result (hfits : combination.Fits dtype.size inputs outputs)
    (hcontributors : combination.contributors me ≠ []) :
    (combination.result arithmetic dtype op inputs me).length =
      combination.length me * dtype.size := by
  refine length_mergeAll (by simpa using hcontributors) fun vector hvector => ?_
  obtain ⟨source, _, rfl⟩ := List.mem_map.mp hvector
  exact Bytes.length_slice (hfits.inside me source)

/-- A buffer that has the result at its start holds the left folds. -/
theorem folded_result {combine}
    (hfits : combination.Fits dtype.size inputs outputs)
    (hcombine : combiner? arithmetic dtype op = some combine) (me : Fin n) :
    combination.Folded combine inputs outputs me
      ((outputs me).overwrite 0 (combination.result arithmetic dtype op inputs me)) := by
  by_cases hcontributors : combination.contributors me = []
  · have hnothing : (outputs me).overwrite 0 (combination.result arithmetic dtype op inputs me) =
        outputs me := by
      rw [result, hcontributors, List.map_nil, mergeAll, Bytes.overwrite_nil]
    rw [hnothing]
    exact ⟨rfl, fun hsome => absurd hcontributors hsome, fun _ _ => rfl, fun _ => rfl⟩
  · have hlength := @length_result n combination arithmetic dtype op inputs outputs me hfits
      hcontributors
    have hroom := hfits.outputs me hcontributors
    refine ⟨Bytes.length_overwrite (by omega), fun _ i hi => ?_, fun i hi => ?_,
      fun hnone => absurd hnone hcontributors⟩
    · rw [Bytes.element_overwrite hlength hi, result,
        element_mergeAll hcombine hi (by simpa using hcontributors), List.map_map]
      simp only [Function.comp_def, Bytes.element_slice _ hi]
    · rw [Bytes.getElem?_overwrite (by omega), if_neg (by omega)]

/-- A rank that gets a result has room for it. -/
theorem room (hfits : combination.Fits dtype.size inputs outputs) {source : Fin n}
    (hsource : source ∈ combination.contributors me) :
    combination.length me * dtype.size ≤ (outputs me).length :=
  hfits.outputs me (List.ne_nil_of_mem hsource)

/-- A rank that asks for the first elements gets the combination of the front parts. -/
theorem result_of_start (hfirst : combination.first me = 0) :
    combination.result arithmetic dtype op inputs me = combined arithmetic dtype op
      (combination.length me) inputs (combination.contributors me) := by
  rw [result, hfirst, Nat.zero_mul, combined]

/-- The result of a rank is its part of the combination of everything. -/
theorem slice_combined_contributed (hfits : combination.Fits dtype.size inputs outputs) :
    (combined arithmetic dtype op combination.contributed inputs
      (combination.contributors me)).slice (combination.first me * dtype.size)
        (combination.length me * dtype.size) =
      combination.result arithmetic dtype op inputs me :=
  slice_combined (hfits.stop_le me) _

/-- Together the ranks leave every rank its result. -/
theorem together_result (hsupported : Supported dtype op)
    (hfits : combination.Fits dtype.size inputs outputs) :
    Together (fun me => exchange arithmetic me (inputs me) (combination.primitive dtype op)) outputs
      (fun _ => .ok ()) fun me =>
        (outputs me).overwrite 0 (combination.result arithmetic dtype op inputs me) := by
  have hinputs := hfits.inputs
  cases combination with
  | reduce count root =>
    have hroot : root ∈ (reduce count root).contributors root := by
      simp [contributors]
    have houtput := hfits.room hroot
    have hafter (me : Fin n) : (outputs me).overwrite 0
        ((reduce count root).result arithmetic dtype op inputs me) =
          if me = root then
            (outputs me).overwrite 0 (combined arithmetic dtype op count inputs (List.finRange n))
          else outputs me := by
      rw [result_of_start rfl, contributors]
      split
      · rfl
      · exact Bytes.overwrite_nil _ _
    simp only [hafter]
    exact together_reduce root hsupported hinputs houtput
  | allreduce count =>
    have hafter (me : Fin n) :=
      @result_of_start n (allreduce count) arithmetic dtype op inputs me rfl
    simp only [hafter]
    rcases Nat.eq_zero_or_pos n with rfl | hn
    · exact together_of_quiet fun me => me.elim0
    · exact together_allreduce hn hsupported hinputs fun me =>
        hfits.room (List.mem_finRange me)
  | reduceScatter receiveCounts =>
    simp only [← hfits.slice_combined_contributed]
    exact together_reduceScatter hsupported hfits.proper hinputs fun me =>
      hfits.room (List.mem_finRange me)
  | reduceScatterBlock receiveCount =>
    simp only [← hfits.slice_combined_contributed]
    exact together_reduceScatterBlock hsupported hfits.proper hinputs fun me =>
      hfits.room (List.mem_finRange me)
  | scan count =>
    have hafter (me : Fin n) := @result_of_start n (scan count) arithmetic dtype op inputs me rfl
    have hself (me : Fin n) : me ∈ (scan count).contributors me := by
      simp [contributors]
    simp only [hafter]
    exact together_scan hsupported hinputs fun me => hfits.room (hself me)
  | exscan count =>
    have hafter (me : Fin n) := @result_of_start n (exscan count) arithmetic dtype op inputs me rfl
    simp only [hafter]
    exact together_exscan hsupported hinputs hfits.outputs

end Fits

/-- **Native reductions are left folds in ascending order of the ranks.** Let all ranks call such
an operation with the same arguments, with a combination of elements that is supported, and with
buffers that are long enough. Then no schedule runs forever, and whatever the schedule, every rank
succeeds and no message is left. In the end each element of a rank's result is the left fold of
the contributors' elements: of all ranks for a reduce, where only the root gets a result, and for
an allreduce, where all ranks get the same one; of all ranks, behind the blocks of the lower ranks,
for the two forms of reduce-scatter; of the ranks up to this one for a scan, and of those below it
for an exscan, which leaves rank 0 what it had. All bytes behind the result are as before. How two
floating-point elements are combined is arbitrary. -/
theorem results_are_left_folds (arithmetic : FloatArithmetic) (hsupported : Supported dtype op)
    (hfits : combination.Fits dtype.size inputs outputs) :
    let programs : Fin n → RankProgram n Reply := fun me =>
      answer arithmetic me ⟨combination.primitive dtype op, inputs me, outputs me⟩
    ∃ combine, combiner? arithmetic dtype op = some combine ∧ ∃ after : Fin n → Bytes,
      (¬ ∃ states : Nat → GroupState n Reply, states 0 = GroupState.opening programs ∧
        ∀ k, (states k).Steps (states (k + 1))) ∧
      Settles programs (fun me => ⟨.ok (), after me⟩) ∧
      (∀ state, (GroupState.opening programs).Reaches state → state.AtRest →
        state.network = Network.idle n ∧
          ∀ me, state.processes.get me = .done ⟨.ok (), after me⟩) ∧
      (∀ me, combination.Folded combine inputs outputs me (after me)) ∧
      (∀ count root, combination = .reduce count root →
        ∀ me, me ≠ root → after me = outputs me) ∧
      (∀ count, combination = .allreduce count → ∀ me other,
        (after me).take (count * dtype.size) = (after other).take (count * dtype.size)) ∧
      ∀ count, combination = .exscan count → ∀ me, me.val = 0 → after me = outputs me := by
  intro programs
  obtain ⟨combine, hcombine⟩ := @exists_combiner arithmetic dtype op hsupported
  have hsettles : Settles programs fun me =>
      ⟨.ok (), (outputs me).overwrite 0 (combination.result arithmetic dtype op inputs me)⟩ :=
    @Together.settles_answer n arithmetic
      (fun me => ⟨combination.primitive dtype op, inputs me, outputs me⟩) _ _
      (hfits.together_result hsupported)
  have hfolded := fun me => hfits.folded_result hcombine me
  refine ⟨combine, hcombine, _, GroupState.no_endless_steps _, hsettles,
    fun state hreaches hrest => ?_, hfolded, ?_, ?_, ?_⟩
  · rw [hsettles.eq_closing hreaches hrest]
    exact ⟨rfl, GroupState.get_opening _⟩
  · rintro count root rfl me hme
    exact (hfolded me).untouched (if_neg hme)
  · rintro count rfl me other
    have hnonempty (rank : Fin n) : (allreduce count).contributors rank ≠ [] :=
      List.ne_nil_of_mem (List.mem_finRange rank)
    have hroom (rank : Fin n) := (hfits.outputs rank (hnonempty rank)).trans_eq
      (hfolded rank).length.symm
    exact Bytes.take_eq_of_elements (hroom me) (hroom other) fun i hi => Option.some.inj <|
      ((hfolded me).folded (hnonempty me) i hi).trans
        ((hfolded other).folded (hnonempty other) i hi).symm
  · rintro count rfl me hme
    refine (hfolded me).untouched (List.filter_eq_nil_iff.mpr fun rank _ => ?_)
    simp [Fin.lt_def, hme]

/-- Three ranks divide a sum into blocks of different lengths, one of which is empty, and the
entry behind those of the ranks counts for nothing. Sums wrap around. -/
theorem results_are_left_folds_reduceScatter :
    let combination : Combination 3 := .reduceScatter [1, 0, 2, 9]
    let inputs : Fin 3 → Bytes := ![[1, 2, 3], [10, 20, 30], [250, 100, 200]]
    let outputs : Fin 3 → Bytes := ![[0, 7], [8], [0, 0, 9]]
    Settles (fun me => answer firstOperand me
        ⟨combination.primitive .uint8 .sum, inputs me, outputs me⟩)
      fun me => ⟨.ok (), ![[5, 7], [8], [122, 233, 9]] me⟩ := by
  intro combination inputs outputs
  have hfits : combination.Fits Datatype.uint8.size inputs outputs :=
    ⟨by simp [Proper, combination], by decide, by decide⟩
  obtain ⟨combine, hcombine, after, -, hsettles, -, hfolded, -⟩ :=
    results_are_left_folds firstOperand (show Supported .uint8 .sum by decide) hfits
  have hafter : after = ![[5, 7], [8], [122, 233, 9]] := by
    ext1 me
    rw [(hfolded me).unique hfits (hfits.folded_result hcombine me)]
    fin_cases me <;> decide
  rwa [hafter] at hsettles

end Combination

end CollectiveTuner.Native
