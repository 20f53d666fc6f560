import CollectiveTuner.Proofs.Communicator.Movement
import CollectiveTuner.Proofs.Communicator.Replies
import CollectiveTuner.Proofs.Reduction.Merge

/-!
# Calls that are rejected

Whether a combination is defined, whether its root is in the group and whether its count fits in a
header shows from the arguments alone, and every rank looks at these before it uses a channel or
its buffer. So a script of which every call is rejected ends without the other ranks.
-/

namespace CollectiveTuner

open Native Reduction

/-- The error of a combination, if there is none of this type. -/
def Reduction.rejection? (dtype : Datatype) (op : ReduceOp) : Option Error :=
  if Supported dtype op then none else some (.unsupportedDatatype dtype "bor")

/-- What a primitive combines elements of, and how. -/
def Primitive.combination? : Primitive → Option (Datatype × ReduceOp)
  | .reduce _ dtype op _ | .allreduce _ dtype op | .reduceScatter _ dtype op
  | .reduceScatterBlock _ dtype op | .scan _ dtype op | .exscan _ dtype op => some (dtype, op)
  | _ => none

/-- The error with which a rank in a group of this size rejects a primitive that combines elements,
if it does so for its arguments. -/
def Primitive.rejection? (size : Nat) : Primitive → Option Error
  | .reduce _ dtype op root =>
    if root < size then Reduction.rejection? dtype op else some (.invalidRank root size)
  | .reduceScatterBlock count dtype op =>
    if count < UInt32.size then Reduction.rejection? dtype op
    else some (.invalidMessageSize count)
  | .allreduce _ dtype op | .reduceScatter _ dtype op | .scan _ dtype op | .exscan _ dtype op =>
    Reduction.rejection? dtype op
  | _ => none

variable {n : Nat} {arithmetic : FloatArithmetic} {me : Fin n} {error : Error} {dtype : Datatype}
  {op : ReduceOp}

/-- A combination that is not defined is rejected as one of an unsupported type. -/
theorem Reduction.rejection?_of_not_supported (hunsupported : ¬ Supported dtype op) :
    rejection? dtype op = some (.unsupportedDatatype dtype "bor") :=
  if_neg hunsupported

/-- Every combination that is not defined is rejected. -/
theorem Primitive.exists_rejection {primitive : Primitive}
    (hcombination : primitive.combination? = some (dtype, op))
    (hunsupported : ¬ Supported dtype op) (size : Nat) :
    ∃ error, primitive.rejection? size = some error := by
  have hrejection := rejection?_of_not_supported hunsupported
  cases primitive with
  | reduce | reduceScatterBlock =>
    cases hcombination
    rw [rejection?]
    split
    · exact ⟨_, hrejection⟩
    · exact ⟨_, rfl⟩
  | allreduce | reduceScatter | scan | exscan =>
    cases hcombination
    exact ⟨_, hrejection⟩
  | _ => cases hcombination

/-- A rejected combination does not pass the check. -/
theorem Reduction.checkSupported_of_rejection (hrejection : rejection? dtype op = some error) :
    checkSupported dtype op = .error error := by
  rw [rejection?] at hrejection
  split at hrejection
  · cases hrejection
  · next hunsupported =>
    rw [checkSupported_of_not_supported hunsupported, Option.some.inj hrejection]

section Answers

variable (input output : Bytes)

/-- A rejected reduce fails with that error, before it exchanges anything or changes its buffer. -/
theorem run_reduce_of_rejection {root count : Nat}
    (hrejection : (Primitive.reduce count dtype op root).rejection? n = some error) :
    (reduce arithmetic me input count dtype op root).run.run output =
      .done (.error error, output) := by
  rw [Primitive.rejection?] at hrejection
  split at hrejection
  · next hroot =>
    rw [reduce, validRank_eq_ok ⟨root, hroot⟩, checkSupported_of_rejection hrejection]
    rfl
  · next hroot =>
    rw [reduce, validRank_eq_error (Nat.le_of_not_lt hroot), ← Option.some.inj hrejection]
    rfl

/-- A rejected reduce-scatter fails with that error, before it exchanges anything or changes its
buffer. -/
theorem run_reduceScatter_of_rejection {counts : List Nat}
    (hrejection : Reduction.rejection? dtype op = some error) :
    (reduceScatter arithmetic me input counts dtype op).run.run output =
      .done (.error error, output) := by
  rw [reduceScatter, checkSupported_of_rejection hrejection]
  rfl

/-- A rejected reduce-scatter of equal blocks fails with that error, before it exchanges anything or
changes its buffer. -/
theorem run_reduceScatterBlock_of_rejection {count : Nat}
    (hrejection : (Primitive.reduceScatterBlock count dtype op).rejection? n = some error) :
    (reduceScatterBlock arithmetic me input count dtype op).run.run output =
      .done (.error error, output) := by
  rw [Primitive.rejection?] at hrejection
  split at hrejection
  · next hfits =>
    rw [reduceScatterBlock, toCount_eq_ok hfits]
    exact run_reduceScatter_of_rejection input output hrejection
  · next hlarge =>
    rw [reduceScatterBlock, toCount_eq_error hlarge, ← Option.some.inj hrejection]
    rfl

/-- **A rejected call leaves no trace.** The rank replies with the error at once. It uses no
channel, and the buffer is as it was. -/
theorem answer_of_rejection {primitive : Primitive}
    (hrejection : primitive.rejection? n = some error) :
    answer arithmetic me ⟨primitive, input, output⟩ = .done ⟨.error error, output⟩ := by
  have hreply (result : (exchange arithmetic me input primitive).run.run output =
      .done (.error error, output)) :
      answer arithmetic me ⟨primitive, input, output⟩ = .done ⟨.error error, output⟩ := by
    rw [answer, result]
    rfl
  cases primitive with
  | reduce => exact hreply (run_reduce_of_rejection input output hrejection)
  | allreduce count dtype op =>
    have hreduce : (Primitive.reduce count dtype op 0).rejection? n = some error := by
      rw [Primitive.rejection?, if_pos me.pos]
      exact hrejection
    have hrun := @run_reduce_of_rejection n arithmetic me error dtype op input output 0 count
      hreduce
    refine hreply ?_
    rw [exchange, allreduce, ExceptT.run_bind, StateT.run_bind, hrun]
    rfl
  | reduceScatter => exact hreply (run_reduceScatter_of_rejection input output hrejection)
  | reduceScatterBlock => exact hreply (run_reduceScatterBlock_of_rejection input output hrejection)
  | scan =>
    refine hreply ?_
    rw [exchange, scan, checkSupported_of_rejection hrejection]
    rfl
  | exscan =>
    refine hreply ?_
    rw [exchange, exscan, checkSupported_of_rejection hrejection]
    rfl
  | _ => cases hrejection

end Answers

/-! ### Scripts of rejected calls -/

/-- Replies of calls that fail with this error and write nothing. -/
def Replies.rejecting (error : Error) : Replies := fun _ call => ⟨.error error, call.output⟩

/-- Replies that reject everything follow the pattern in which nothing passes. -/
theorem answers_rejecting (error : Error) : Answers (fun _ => false) (.rejecting error) where
  status _ _ := rfl
  length _ _ := rfl

/-- A script of which every call is rejected ends on its own. -/
theorem run_of_rejected {α : Type} {position : Nat} {script : Script α}
    (hrejected : ∀ call ∈ (script.answeredFrom (.rejecting error) position).2,
      call.primitive.rejection? n = some error) :
    run arithmetic me script = .done (script.answeredFrom (.rejecting error) position).1 := by
  induction script generalizing position with
  | done value => rfl
  | ask call next ih =>
    simp only [Script.answeredFrom, List.forall_mem_cons] at hrejected
    obtain ⟨hcall, hrest⟩ := hrejected
    change (answer arithmetic me call).bind (fun reply => run arithmetic me (next reply)) = _
    rw [answer_of_rejection call.input call.output hcall]
    exact ih _ hrest

end CollectiveTuner
