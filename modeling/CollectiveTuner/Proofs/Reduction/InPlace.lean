import CollectiveTuner.Proofs.Reduction.Elements
import CollectiveTuner.Proofs.Reduction.Words

/-!
# Reduction in place

The buffer is overwritten element by element while it is read. Each element is read before it is
overwritten, so the buffer ends with the combinations of the elements it began with. The checks come
before the first element, and no element fails after them, so that a failure leaves the buffer as it
was. The length that the checks compare is a word, so this holds for as many elements as have a
length that is one.
-/

namespace CollectiveTuner

namespace Bytes

/-- A block written behind the first bytes of a buffer. -/
theorem overwrite_append_left {first : Bytes} (rest block : Bytes) {size : Nat}
    (hsize : first.length = size) (start : Nat) :
    Bytes.overwrite (first ++ rest) (size + start) block = first ++ rest.overwrite start block := by
  subst hsize
  simp only [overwrite, Nat.add_assoc, List.take_length_add_append, List.drop_length_add_append,
    List.append_assoc]

/-- An element behind the first one. -/
theorem element_succ (size : Nat) (buffer : Bytes) (i : Nat) :
    element size buffer (i + 1) = element size (buffer.drop size) i := by
  have hstart : (i + 1) * size = size + i * size := by ring
  rw [element, element, slice, slice, List.drop_drop, hstart]

end Bytes

namespace Reduction

open Bytes (element ofNatLE slice)

namespace InPlace

variable {α β : Type}

/-- The second computation works on what the first one leaves behind, unless that fails or stops. -/
theorem runOn_bind (first : InPlace α) (next : α → InPlace β) (buffer : Bytes) :
    (first >>= next).runOn buffer =
      match first.runOn buffer with
      | (some (.ok value), after) => (next value).runOn after
      | (some (.error error), after) => (some (.error error), after)
      | (none, after) => (none, after) := by
  unfold runOn
  rw [ExceptT.run_bind, OptionT.run_bind, Option.elimM, StateT.run_bind]
  rcases first.run.run.run buffer with ⟨_ | _ | _, after⟩ <;> rfl

/-- Reading the buffer leaves it as it is. -/
theorem runOn_get_bind (next : Bytes → InPlace β) (buffer : Bytes) :
    (get >>= next).runOn buffer = (next buffer).runOn buffer := rfl

/-- A computation goes on with a value that is there. -/
theorem runOn_ofOption_some_bind (value : α) (next : α → InPlace β) (buffer : Bytes) :
    (ofOption (some value) >>= next).runOn buffer = (next value).runOn buffer := rfl

/-- A computation stops where a value is missing. -/
theorem runOn_ofOption_none_bind (next : α → InPlace β) (buffer : Bytes) :
    (ofOption none >>= next).runOn buffer = (none, buffer) := rfl

end InPlace

variable {overflow : Overflow} {arithmetic : FloatArithmetic} {dtype : Datatype} {op : ReduceOp}
  {combine : BitVec (8 * dtype.size) → BitVec (8 * dtype.size) → BitVec (8 * dtype.size)}

/-! ### The loop -/

/-- An element inside a buffer can be read. -/
theorem readElement?_of_le {buffer : Bytes} {i : Nat}
    (hinside : (i + 1) * dtype.size ≤ buffer.length) :
    readElement? dtype buffer (i * dtype.size) = some (element dtype.size buffer i) :=
  if_pos ((Nat.succ_mul i dtype.size).symm.trans_le hinside)

/-- An element that a buffer has no room for cannot be read. -/
theorem readElement?_of_lt {buffer : Bytes} {i : Nat}
    (houtside : buffer.length < (i + 1) * dtype.size) :
    readElement? dtype buffer (i * dtype.size) = none :=
  if_neg (not_le.mpr (houtside.trans_eq (Nat.succ_mul i dtype.size)))

/-- One more element is combined by reading and overwriting it in place. -/
theorem combineElements_succ {size : Nat}
    (combine : BitVec (8 * size) → BitVec (8 * size) → BitVec (8 * size)) (done : Nat)
    (target source : Bytes) :
    combineElements combine (done + 1) target source =
      (combineElements combine done target source).overwrite (done * size)
        (ofNatLE size (combine (element size target done) (element size source done)).toNat) := by
  induction done generalizing target source with
  | zero =>
    rw [Nat.zero_mul, Bytes.overwrite_zero, Bytes.length_ofNatLE, element, element, Nat.zero_mul,
      Bytes.slice_start, Bytes.slice_start]
    rfl
  | succ done ih =>
    have hstart : (done + 1) * size = size + done * size := by ring
    rw [combineElements, ih, combineElements, hstart,
      Bytes.overwrite_append_left _ _ (Bytes.length_ofNatLE _ _), Bytes.element_succ,
      Bytes.element_succ]

/-- An element that has not been combined yet is the one from before. -/
theorem element_combineElements_self {size : Nat}
    (combine : BitVec (8 * size) → BitVec (8 * size) → BitVec (8 * size)) (done : Nat)
    (target source : Bytes) :
    element size (combineElements combine done target source) done =
      element size target done := by
  rw [element, element, slice, slice, drop_combineElements combine le_rfl, Nat.sub_self,
    combineElements]

/-- One step of the loop, while both buffers have the element. -/
theorem runOn_accumulateElement (hcombine : combiner? arithmetic dtype op = some combine)
    {done : Nat} {target source : Bytes} (htarget : (done + 1) * dtype.size ≤ target.length)
    (hsource : (done + 1) * dtype.size ≤ source.length) :
    (accumulateElement arithmetic dtype op source done).runOn
        (combineElements combine done target source) =
      (some (.ok ()), combineElements combine (done + 1) target source) := by
  have hroom : done * dtype.size ≤ target.length :=
    (Nat.mul_le_mul_right _ done.le_succ).trans htarget
  have hinside : (done + 1) * dtype.size ≤ (combineElements combine done target source).length := by
    rwa [length_combineElements combine source hroom]
  unfold accumulateElement
  rw [InPlace.runOn_get_bind, readElement?_of_le hinside, readElement?_of_le hsource,
    InPlace.runOn_ofOption_some_bind, InPlace.runOn_ofOption_some_bind, combineElements_succ,
    element_combineElements_self combine done]
  simp only [hcombine]
  rfl

/-- A step of the loop for which one of the buffers has no element left. -/
theorem runOn_accumulateElement_of_lt {done : Nat} {buffer source : Bytes}
    (houtside : min buffer.length source.length < (done + 1) * dtype.size) :
    (accumulateElement arithmetic dtype op source done).runOn buffer = (none, buffer) := by
  unfold accumulateElement
  rw [InPlace.runOn_get_bind]
  by_cases htarget : buffer.length < (done + 1) * dtype.size
  · rw [readElement?_of_lt htarget, InPlace.runOn_ofOption_none_bind]
  · have hsource : source.length < (done + 1) * dtype.size := by omega
    rw [readElement?_of_le (not_lt.mp htarget), InPlace.runOn_ofOption_some_bind,
      readElement?_of_lt hsource, InPlace.runOn_ofOption_none_bind]

/-- After some steps of the loop, so many elements are combined. -/
theorem runOn_forM_accumulateElement (hcombine : combiner? arithmetic dtype op = some combine)
    {count : Nat} {target source : Bytes} (htarget : count * dtype.size ≤ target.length)
    (hsource : count * dtype.size ≤ source.length) :
    ((List.range count).forM (accumulateElement arithmetic dtype op source)).runOn target =
      (some (.ok ()), combineElements combine count target source) := by
  induction count with
  | zero => rfl
  | succ done ih =>
    have hless : done * dtype.size ≤ (done + 1) * dtype.size := Nat.mul_le_mul_right _ done.le_succ
    have hbefore := ih (hless.trans htarget) (hless.trans hsource)
    rw [List.forM_eq_forM] at hbefore ⊢
    rw [List.range_succ, List.forM_append, InPlace.runOn_bind, hbefore]
    dsimp only
    rw [List.forM_cons, InPlace.runOn_bind, runOn_accumulateElement hcombine htarget hsource]
    rfl

/-- A loop over more elements than the buffers have combines those that they have, and stops. -/
theorem runOn_forM_accumulateElement_of_lt (hcombine : combiner? arithmetic dtype op = some combine)
    {count : Nat} {target source : Bytes}
    (houtside : min target.length source.length < count * dtype.size) :
    ((List.range count).forM (accumulateElement arithmetic dtype op source)).runOn target =
      (none, combineElements combine (min target.length source.length / dtype.size) target
        source) := by
  set done := min target.length source.length / dtype.size with hdone
  have hsize : 0 < dtype.size := by cases dtype <;> decide
  have hroom : done * dtype.size ≤ min target.length source.length := Nat.div_mul_le_self _ _
  have hnext : min target.length source.length < (done + 1) * dtype.size :=
    Nat.lt_mul_of_div_lt done.lt_succ_self hsize
  have hmore : done < count := Nat.lt_of_mul_lt_mul_right (hroom.trans_lt houtside)
  obtain ⟨rest, rfl⟩ := Nat.exists_eq_add_of_lt hmore
  have hbefore := runOn_forM_accumulateElement hcombine (hroom.trans (min_le_left _ _))
    (hroom.trans (min_le_right _ _))
  have hlength : (combineElements combine done target source).length = target.length :=
    length_combineElements combine source (hroom.trans (min_le_left _ _))
  rw [List.forM_eq_forM] at hbefore ⊢
  rw [Nat.add_assoc, List.range_add, List.forM_append, InPlace.runOn_bind, hbefore]
  dsimp only
  rw [List.range_succ_eq_map, List.map_cons, List.forM_cons, InPlace.runOn_bind, Nat.add_zero,
    runOn_accumulateElement_of_lt (hnext.trans_eq' (by rw [hlength]))]

/-! ### The whole computation -/

/-- The combination is not defined for the elements. -/
theorem runOn_accumulateInPlace_of_not_supported (hunsupported : ¬ Supported dtype op)
    (count : Nat) (target source : Bytes) :
    (accumulateInPlace overflow arithmetic dtype op count source).runOn target =
      (some (.error (.unsupportedDatatype dtype "bor")), target) := by
  unfold accumulateInPlace
  rw [checkSupported_of_not_supported hunsupported]
  rfl

/-- A buffer is too short for the bytes that the build takes to be needed. -/
theorem runOn_accumulateInPlace_of_short (hsupported : Supported dtype op) {count needed : Nat}
    (hneeded : overflow.word (count * dtype.size) = some needed) {target source : Bytes}
    (hshort : target.length < needed ∨ source.length < needed) :
    (accumulateInPlace overflow arithmetic dtype op count source).runOn target =
      (some (.error (.bufferSizeMismatch needed (min target.length source.length))), target) := by
  unfold accumulateInPlace
  rw [checkSupported_of_supported hsupported, MonadExcept.ofExcept, pure_bind, hneeded,
    InPlace.runOn_ofOption_some_bind, InPlace.runOn_get_bind]
  dsimp only
  rw [if_pos hshort]
  rfl

/-- The checks are passed, and only the loop is left. -/
theorem runOn_accumulateInPlace_of_long (hsupported : Supported dtype op) {count needed : Nat}
    (hneeded : overflow.word (count * dtype.size) = some needed) {target source : Bytes}
    (hlong : ¬ (target.length < needed ∨ source.length < needed)) :
    (accumulateInPlace overflow arithmetic dtype op count source).runOn target =
      ((List.range count).forM (accumulateElement arithmetic dtype op source)).runOn target := by
  unfold accumulateInPlace
  rw [checkSupported_of_supported hsupported, MonadExcept.ofExcept, pure_bind, hneeded,
    InPlace.runOn_ofOption_some_bind, InPlace.runOn_get_bind]
  dsimp only
  rw [if_neg hlong]

/-- A build whose products stop goes no further than one that does not fit in a word. -/
theorem runOn_accumulateInPlace_of_overflow (hsupported : Supported dtype op) {count : Nat}
    (hneeded : overflow.word (count * dtype.size) = none) (target source : Bytes) :
    (accumulateInPlace overflow arithmetic dtype op count source).runOn target =
      (none, target) := by
  unfold accumulateInPlace
  rw [checkSupported_of_supported hsupported, MonadExcept.ofExcept, pure_bind, hneeded,
    InPlace.runOn_ofOption_none_bind]

/-- What is computed without a buffer is what the buffer ends with, unless the computation fails. -/
theorem accumulate_eq_runOn (overflow : Overflow) (arithmetic : FloatArithmetic) (dtype : Datatype)
    (op : ReduceOp) {count : Nat} (hword : count * dtype.size < UInt64.size)
    (target source : Bytes) :
    some (accumulate arithmetic dtype op count target source) =
      ((accumulateInPlace overflow arithmetic dtype op count source).runOn target).1.map
        fun result => result.map fun _ =>
          ((accumulateInPlace overflow arithmetic dtype op count source).runOn target).2 := by
  have hneeded := overflow.word_of_lt hword
  by_cases hsupported : Supported dtype op
  · obtain ⟨combine, hcombine⟩ := @exists_combiner arithmetic dtype op hsupported
    by_cases hshort : target.length < count * dtype.size ∨ source.length < count * dtype.size
    · rw [runOn_accumulateInPlace_of_short hsupported hneeded hshort, accumulate,
        checkSupported_of_supported hsupported]
      exact congrArg some (if_pos hshort)
    · obtain ⟨htarget, hsource⟩ := not_or.mp hshort
      rw [not_lt] at htarget hsource
      rw [runOn_accumulateInPlace_of_long hsupported hneeded hshort,
        runOn_forM_accumulateElement hcombine htarget hsource,
        accumulate_eq_ok hsupported htarget hsource]
      simp only [merge, hcombine, Except.map, Option.map_some]
  · rw [runOn_accumulateInPlace_of_not_supported hsupported, accumulate,
      checkSupported_of_not_supported hsupported]
    rfl

/-- The buffer after its first elements have been combined. -/
theorem accumulated_combineElements (hcombine : combiner? arithmetic dtype op = some combine)
    {count : Nat} {target source : Bytes} (htarget : count * dtype.size ≤ target.length)
    {i : Nat} (hi : i < count) :
    ∃ result, (∀ word, IsCombination arithmetic dtype op (element dtype.size target i)
        (element dtype.size source i) word ↔ word = result) ∧
      (combineElements combine count target source).slice (i * dtype.size) dtype.size =
        ofNatLE dtype.size result.toNat := by
  refine ⟨_, fun word => isCombination_iff hcombine, ?_⟩
  have hinside : i * dtype.size + dtype.size ≤
      (combineElements combine count target source).length := by
    rw [length_combineElements combine source htarget, ← Nat.succ_mul]
    exact (Nat.mul_le_mul_right _ hi).trans htarget
  rw [← Bytes.ofNatLE_element hinside, element_combineElements combine hi]

/-- **Reducing in place works element by element, and all or nothing**, if the bytes that the
elements need are a word. It fails in two cases only, and then the buffer is unchanged. In the first
case, which is checked first, the operation is the bitwise one and the elements are floating-point
numbers. In the second case the buffer or the source is shorter than the elements to combine. The
error inside the loop is never raised, and the loop never stops.

Otherwise each of these elements is replaced by the combination of the element that was in its place
with the one of the source, and the bytes behind them stay. The combination is exact up to the width
of the word, respects the order with or without a sign, or is bitwise; for floating-point numbers it
is that of their arithmetic. What is computed without a buffer is what the buffer ends with. All of
this holds whatever the build does with products that are no words. -/
theorem accumulate_elementwise_or_unchanged (overflow : Overflow) (arithmetic : FloatArithmetic)
    (dtype : Datatype) (op : ReduceOp) {count : Nat} (hword : count * dtype.size < UInt64.size)
    (target source : Bytes) :
    let needed := count * dtype.size
    let undefined := op = .bitOr ∧ dtype.isInteger = false
    let short := target.length < needed ∨ source.length < needed
    let left := (accumulateInPlace overflow arithmetic dtype op count source).runOn target
    some (accumulate arithmetic dtype op count target source) =
        left.1.map (fun result => result.map fun _ => left.2) ∧
      (left = (some (.error (.unsupportedDatatype dtype "bor")), target) ↔ undefined) ∧
      (left = (some (.error (.bufferSizeMismatch needed (min target.length source.length))),
        target) ↔ ¬ undefined ∧ short) ∧
      (left.1 = some (.ok ()) ↔ ¬ undefined ∧ ¬ short) ∧
      left.1 ≠ some (.error (.unsupportedDatatype dtype "reduce")) ∧ left.1 ≠ none ∧
      (left.1 = some (.ok ()) →
        left.2.length = target.length ∧ left.2.drop needed = target.drop needed ∧
          ∀ i < count, ∃ result,
            (∀ word, IsCombination arithmetic dtype op (element dtype.size target i)
              (element dtype.size source i) word ↔ word = result) ∧
            left.2.slice (i * dtype.size) dtype.size = ofNatLE dtype.size result.toNat) := by
  intro needed undefined short left
  have hneeded := overflow.word_of_lt hword
  refine ⟨accumulate_eq_runOn overflow arithmetic dtype op hword target source, ?_⟩
  by_cases hundefined : undefined
  · have hleft : left = (some (.error (.unsupportedDatatype dtype "bor")), target) :=
      runOn_accumulateInPlace_of_not_supported (not_not.mpr hundefined) count target source
    rw [hleft]
    simp [hundefined]
  · obtain ⟨combine, hcombine⟩ := @exists_combiner arithmetic dtype op hundefined
    by_cases hshort : short
    · have hleft : left =
          (some (.error (.bufferSizeMismatch needed (min target.length source.length))), target) :=
        runOn_accumulateInPlace_of_short hundefined hneeded hshort
      rw [hleft]
      simp [hundefined, hshort]
    · have htarget : count * dtype.size ≤ target.length := not_lt.mp (not_or.mp hshort).1
      have hsource : count * dtype.size ≤ source.length := not_lt.mp (not_or.mp hshort).2
      have hleft : left = (some (.ok ()), combineElements combine count target source) :=
        (runOn_accumulateInPlace_of_long hundefined hneeded hshort).trans
          (runOn_forM_accumulateElement hcombine htarget hsource)
      have hrest : (combineElements combine count target source).drop needed =
          target.drop needed := by
        rw [drop_combineElements combine le_rfl, Nat.sub_self, combineElements]
      rw [hleft]
      refine ⟨?_, ?_, ?_, ?_, ?_, fun _ => ⟨length_combineElements combine source htarget, hrest,
        fun i hi => accumulated_combineElements hcombine htarget hi⟩⟩
      · simp [hundefined]
      · simp [hshort]
      · simp [hundefined, hshort]
      · simp
      · simp

/-- The order of signed bytes, with bytes behind the elements, and a buffer that is too short. -/
theorem accumulate_elementwise_or_unchanged_signed :
    let left (target : Bytes) :=
      (accumulateInPlace .stops firstOperand .int8 .max 2 [1, 0x80, 7, 8]).runOn target
    (left [0xFF, 5, 9]).1 = some (.ok ()) ∧
      (left [0xFF, 5, 9]).2.length = 3 ∧ (left [0xFF, 5, 9]).2.drop 2 = [9] ∧
      (∀ i < 2, ∃ result,
        (∀ word, IsCombination firstOperand .int8 .max (element 1 [0xFF, 5, 9] i)
          (element 1 [1, 0x80, 7, 8] i) word ↔ word = result) ∧
        (left [0xFF, 5, 9]).2.slice (i * 1) 1 = ofNatLE 1 result.toNat) ∧
      left [0xFF] = (some (.error (.bufferSizeMismatch 2 1)), [0xFF]) := by
  intro left
  have hleft : (left [0xFF, 5, 9]).1 = some (.ok ()) := rfl
  have hword : 2 * Datatype.int8.size < UInt64.size := by decide
  obtain ⟨-, -, -, -, -, -, hafter⟩ := accumulate_elementwise_or_unchanged .stops firstOperand .int8
    .max hword [0xFF, 5, 9] [1, 0x80, 7, 8]
  obtain ⟨-, -, hshort, -⟩ := accumulate_elementwise_or_unchanged .stops firstOperand .int8 .max
    hword [0xFF] [1, 0x80, 7, 8]
  obtain ⟨hlength, hrest, helements⟩ := hafter hleft
  exact ⟨hleft, hlength, hrest, helements, hshort.mpr (by decide)⟩

/-- **A count whose bytes are no word is not told apart from a short one.** A build whose products
stop ends without a result and leaves the buffer as it is. One that goes on compares the buffers
with what is left of the product: it fails with that length, or it combines all elements that both
buffers have and ends without a result behind the last of them. -/
theorem accumulate_of_overflow (arithmetic : FloatArithmetic) {dtype : Datatype} {op : ReduceOp}
    (hsupported : Supported dtype op) {count : Nat} (hword : UInt64.size ≤ count * dtype.size)
    {target source : Bytes} (hlength : min target.length source.length < UInt64.size) :
    let left := fun overflow =>
      (accumulateInPlace overflow arithmetic dtype op count source).runOn target
    let needed := count * dtype.size % UInt64.size
    left .stops = (none, target) ∧
      (target.length < needed ∨ source.length < needed → left .wraps =
        (some (.error (.bufferSizeMismatch needed (min target.length source.length))), target)) ∧
      (¬ (target.length < needed ∨ source.length < needed) →
        ∃ combine, combiner? arithmetic dtype op = some combine ∧ left .wraps =
          (none, combineElements combine (min target.length source.length / dtype.size) target
            source)) := by
  intro left needed
  have hstops : Overflow.stops.word (count * dtype.size) = none := if_neg hword.not_gt
  refine ⟨runOn_accumulateInPlace_of_overflow hsupported hstops target source,
    fun hshort => runOn_accumulateInPlace_of_short hsupported rfl hshort, fun hlong => ?_⟩
  obtain ⟨combine, hcombine⟩ := @exists_combiner arithmetic dtype op hsupported
  exact ⟨combine, hcombine, (runOn_accumulateInPlace_of_long hsupported rfl hlong).trans
    (runOn_forM_accumulateElement_of_lt hcombine (hlength.trans_le hword))⟩

/-- So many elements of eight bytes that their length is no word, and one element in each buffer.
The buffers are shorter than the elements, but this is not what the computation ends with, and a
build that goes on overwrites the buffer. -/
theorem accumulate_of_overflow_one_element :
    let target : Bytes := [1, 0, 0, 0, 0, 0, 0, 0]
    let source : Bytes := [2, 0, 0, 0, 0, 0, 0, 0]
    let left := fun overflow =>
      (accumulateInPlace overflow firstOperand .uint64 .sum (2 ^ 61) source).runOn target
    target.length < 2 ^ 61 * Datatype.uint64.size ∧ left .stops = (none, target) ∧
      left .wraps = (none, [3, 0, 0, 0, 0, 0, 0, 0]) := by
  intro target source left
  obtain ⟨hstops, -, hwraps⟩ := @accumulate_of_overflow firstOperand .uint64 .sum (by decide)
    (2 ^ 61) (by decide) target source (by decide)
  obtain ⟨combine, hcombine, hleft⟩ := hwraps (by decide)
  cases hcombine
  exact ⟨by decide, hstops, hleft.trans (by decide)⟩

end Reduction

end CollectiveTuner
