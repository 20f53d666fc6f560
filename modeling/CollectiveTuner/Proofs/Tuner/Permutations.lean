import CollectiveTuner.Proofs.Communicator.Permutations
import CollectiveTuner.Proofs.Tuner.Rejections

/-!
# Reductions of exchanged inputs

What a call leaves in the outputs depends on the inputs only through the contents of the request.
When a request combines the integers of all ranks, the contents are the same whoever contributes
what. So all algorithms leave the same outputs when the ranks exchange their inputs, also inputs
that are too short.
-/

namespace CollectiveTuner

open Native Transport Reduction

variable {n : Nat} {arithmetic : FloatArithmetic} {messages integers : Nat} {request : Request}
  {dtype : Datatype} {op : ReduceOp} {inputs inputs' outputs : Fin n → Bytes}

namespace Request

/-- The request combines the elements of all ranks. -/
def CombinesAll : Request → Prop
  | allreduce .. | reduce .. | reduceScatterBlock .. => True
  | _ => False

/-- All ranks need inputs of the same length for such a request. -/
theorem CombinesAll.inputBytes_eq (hall : request.CombinesAll) (me other : Fin n) :
    request.inputBytes ⟨me, n⟩ = request.inputBytes ⟨other, n⟩ := by
  cases request <;> first | rfl | exact hall.elim

/-- The contents do not depend on who contributes what. -/
theorem contents_comp_perm (hinteger : dtype.isInteger = true) (hall : request.CombinesAll)
    (hcombination : request.primitive.combination? = some (dtype, op))
    (hinputs : ∀ me : Fin n, request.inputBytes ⟨me, n⟩ ≤ (inputs me).length)
    (σ : Equiv.Perm (Fin n)) :
    request.contents arithmetic (inputs ∘ σ) outputs =
      request.contents arithmetic inputs outputs := by
  funext me
  cases request with
  | allreduce count =>
    cases hcombination
    exact combined_comp_perm hinteger hinputs σ
  | reduce count dtype op root =>
    cases hcombination
    rw [contents, contents, combined_comp_perm hinteger hinputs σ]
  | reduceScatterBlock count dtype op =>
    cases hcombination
    have hinputs (me : Fin n) : n * count * dtype.size ≤ (inputs me).length :=
      (Nat.mul_assoc _ _ _).trans_le (hinputs me)
    rw [contents, contents, combined_comp_perm hinteger hinputs σ]
  | _ => exact hall.elim

end Request

namespace Tuner

open Request

/-! ### Calls with the same contents -/

/-- The output that a rank gets back was not written, or is the one that the call ran with. -/
theorem output_restored_congr {me : Member} {input input' output : Bytes}
    {outcome outcome' : Outcome} (houtput : outcome'.output = outcome.output) :
    (restored me request input' output outcome').output =
      (restored me request input output outcome).output := by
  rcases Nat.lt_or_ge output.length (request.outputBytes me) with hshort | hlong
  · rw [output_restored_of_lt hshort, output_restored_of_lt hshort]
  · rw [output_restored_of_le hlong, output_restored_of_le hlong, houtput]

/-- The status does not depend on what an input holds that is long enough. -/
theorem status_restored_congr {me : Member} {input input' output : Bytes}
    {outcome outcome' : Outcome} (hstatus : outcome'.status = outcome.status)
    (hinput : request.inputBytes me ≤ input.length)
    (hinput' : request.inputBytes me ≤ input'.length) :
    (restored me request input' output outcome').status =
      (restored me request input output outcome).status := by
  simp only [restored, value_measure, value_standIn_of_le hinput, value_standIn_of_le hinput',
    hstatus]

variable {tuners : Fin n → Tuner}

/-- **What a call leaves depends on the inputs only through the contents of the request.** A rank
with inputs that are long enough in both calls also gets the same status. -/
theorem settles_of_contents_eq (hinstep : InStep messages integers tuners)
    (hcontents : request.contents arithmetic (fun me => (footings request inputs' outputs me).input)
        (fun me => (footings request inputs' outputs me).output) =
      request.contents arithmetic (fun me => (footings request inputs outputs me).input)
        fun me => (footings request inputs outputs me).output) :
    ∃ outcomes outcomes' : Fin n → Outcome,
      Settles (fun me => run arithmetic me
        ((tuners me).perform arithmetic request (inputs me) (outputs me))) outcomes ∧
      Settles (fun me => run arithmetic me
        ((tuners me).perform arithmetic request (inputs' me) (outputs me))) outcomes' ∧
      ∀ me, (outcomes' me).output = (outcomes me).output ∧
        (request.inputBytes ⟨me, n⟩ ≤ (inputs me).length →
          request.inputBytes ⟨me, n⟩ ≤ (inputs' me).length →
            (outcomes' me).status = (outcomes me).status) := by
  rcases Nat.eq_zero_or_pos n with rfl | hn
  · obtain ⟨outcomes, hsettles, -⟩ := settles_perform arithmetic hinstep request inputs outputs
    obtain ⟨outcomes', hsettles', -⟩ := settles_perform arithmetic hinstep request inputs' outputs
    exact ⟨outcomes, outcomes', hsettles, hsettles', fun me => me.elim0⟩
  by_cases hfeasible : Feasible messages integers tuners request
  · obtain ⟨hroot, hserved⟩ := hfeasible
    obtain ⟨stop, outcomes, hsettles, hends⟩ := @settles_perform_of_root n arithmetic messages
      integers tuners request hn hinstep hroot inputs outputs
    obtain ⟨stop', outcomes', hsettles', hends'⟩ := @settles_perform_of_root n arithmetic messages
      integers tuners request hn hinstep hroot inputs' outputs
    have hdelivers := hends.delivers_of_served hserved
    have hdelivers' := hends'.delivers_of_served hserved
    refine ⟨_, _, hsettles, hsettles', fun me => ⟨output_restored_congr ?_,
      status_restored_congr ((hdelivers' me).1.trans (hdelivers me).1.symm)⟩⟩
    rw [(hdelivers' me).2, (hdelivers me).2, hcontents]
    rfl
  · obtain ⟨error, -, hrejects⟩ :=
      @exists_rejection_of_not_feasible n arithmetic _ _ _ _ hinstep hfeasible
    obtain ⟨arenas, events, hrun⟩ := hrejects inputs outputs
    obtain ⟨arenas', events', hrun'⟩ := hrejects inputs' outputs
    rw [funext hrun, funext hrun']
    exact ⟨_, _, settles_done _, settles_done _, fun me => ⟨rfl, fun _ _ => rfl⟩⟩

/-! ### Exchanged inputs -/

/-- When the ranks exchange their inputs, they exchange what a call runs with. -/
theorem input_footings_comp_perm (hall : request.CombinesAll) (σ : Equiv.Perm (Fin n))
    (me : Fin n) : (footings request (inputs ∘ σ) outputs me).input =
      (footings request inputs outputs (σ me)).input := by
  rw [footings, footings, value_measure, value_measure, hall.inputBytes_eq me (σ me)]
  rfl

/-- **Reductions of integers do not depend on who contributes what.** Let the ranks of a group
exchange their inputs. A native reduce, allreduce or reduce-scatter of integers with buffers that
are long enough succeeds on every rank as before, and leaves every rank the same buffer.

The same holds for the tuners of a group at any point between calls, and so for all algorithms of
the reduce, the allreduce and the reduce-scatter of blocks, with buffers of any length. Every call
ends on every schedule, and it leaves the same outputs. A rank that is given enough in both cases
gets the same status, which is success when all buffers are long enough and the native operation
accepts the request. -/
theorem exchanged_inputs_reduce_alike (arithmetic : FloatArithmetic)
    (hinteger : dtype.isInteger = true) (op : ReduceOp) (σ : Equiv.Perm (Fin n))
    (inputs outputs : Fin n → Bytes) :
    (∀ combination : Combination n, combination.TakesAll →
      combination.Fits dtype.size inputs outputs →
        ∃ after : Fin n → Bytes,
          Settles (fun me => answer arithmetic me
            ⟨combination.primitive dtype op, inputs me, outputs me⟩)
            (fun me => ⟨.ok (), after me⟩) ∧
          Settles (fun me => answer arithmetic me
            ⟨combination.primitive dtype op, inputs (σ me), outputs me⟩)
            fun me => ⟨.ok (), after me⟩) ∧
      ∀ (host : Host) (configuration : Configuration) (tuners : Fin n → Tuner)
        (request : Request), Reachable arithmetic host configuration tuners →
        request.CombinesAll → request.primitive.combination? = some (dtype, op) →
        ∃ outcomes outcomes' : Fin n → Outcome,
          Settles (fun me => run arithmetic me
            ((tuners me).perform arithmetic request (inputs me) (outputs me))) outcomes ∧
          Settles (fun me => run arithmetic me
            ((tuners me).perform arithmetic request (inputs (σ me)) (outputs me))) outcomes' ∧
          (∀ me, (outcomes' me).output = (outcomes me).output ∧
            (request.inputBytes ⟨me, n⟩ ≤ (inputs me).length →
              request.inputBytes ⟨me, n⟩ ≤ (inputs (σ me)).length →
                (outcomes' me).status = (outcomes me).status)) ∧
          (request.Supplied inputs outputs → request.Accepted →
            ∀ me, (outcomes me).status = .ok ()) := by
  refine ⟨fun combination hall hfits =>
    Combination.exists_after_perm arithmetic op hinteger hall hfits σ,
    fun host configuration tuners request hreachable hall hcombination => ?_⟩
  have hinstep := inStep_of_reachable hreachable
  have hinputs : ∀ me : Fin n,
      request.inputBytes ⟨me, n⟩ ≤ (footings request inputs outputs me).input.length :=
    fun me => le_length_standIn _ _ _
  have hcontents := @contents_comp_perm n arithmetic request dtype op _
    (fun me => (footings request inputs outputs me).output) hinteger hall hcombination hinputs σ
  have hexchanged : (fun me => (footings request (inputs ∘ σ) outputs me).input) =
      (fun me => (footings request inputs outputs me).input) ∘ σ :=
    funext (input_footings_comp_perm hall σ)
  rw [← hexchanged] at hcontents
  obtain ⟨outcomes, outcomes', hsettles, hsettles', hsame⟩ :=
    @settles_of_contents_eq n arithmetic _ _ request inputs (inputs ∘ σ) outputs tuners hinstep
      hcontents
  refine ⟨outcomes, outcomes', hsettles, hsettles', hsame, fun hsupplied haccepted me => ?_⟩
  obtain ⟨delivered, hdelivered, -, hdelivers⟩ :=
    settles_perform arithmetic hinstep request inputs outputs
  rw [hdelivered.eq_of_endsWith hsettles.endsWith]
  exact (hdelivers hsupplied haccepted me).1

/-- Signed bytes, the smallest of which is written like the largest without a sign. Three ranks
exchange them around a ring, natively and by a reduce-scatter and an allgather of padded blocks. -/
theorem exchanged_inputs_reduce_alike_signed :
    let inputs : Fin 3 → Bytes := ![[0x80, 1], [0x7F, 0xFF], [0xFF, 0x80]]
    let outputs : Fin 3 → Bytes := fun _ => [0, 0, 7]
    (∃ after : Fin 3 → Bytes,
      Settles (fun me => answer firstOperand me
        ⟨.allreduce 2 .int8 .max, inputs me, outputs me⟩) (fun me => ⟨.ok (), after me⟩) ∧
      Settles (fun me => answer firstOperand me
        ⟨.allreduce 2 .int8 .max, inputs (finRotate 3 me), outputs me⟩)
        fun me => ⟨.ok (), after me⟩) ∧
      ∃ (tuners : Fin 3 → Tuner) (outcomes outcomes' : Fin 3 → Outcome),
        (∀ me, (tuners me).catalog.active .allreduce = 2) ∧
        Settles (fun me => run firstOperand me ((tuners me).perform firstOperand
          (.allreduce 2 .int8 .max) (inputs me) (outputs me))) outcomes ∧
        Settles (fun me => run firstOperand me ((tuners me).perform firstOperand
          (.allreduce 2 .int8 .max) (inputs (finRotate 3 me)) (outputs me))) outcomes' ∧
        ∀ me, (outcomes' me).output = (outcomes me).output ∧ (outcomes' me).status = .ok () := by
  intro inputs outputs
  obtain ⟨tuners, hreachable, hactive⟩ := exists_reachable_selected
    firstOperand ⟨fun _ => .error .notFound, fun _ => .error .notFound⟩ 3
    (show (Collective.allreduce.choices.any fun choice => choice.id == 2) = true by decide)
  have hfits : (Combination.allreduce 2 : Combination 3).Fits Datatype.int8.size inputs outputs :=
    ⟨trivial, by decide, by decide⟩
  have hsupplied : (Request.allreduce 2 .int8 .max).Supplied inputs outputs :=
    ⟨by decide, by decide, by decide⟩
  obtain ⟨hnative, htuner⟩ := exchanged_inputs_reduce_alike firstOperand
    (show Datatype.int8.isInteger = true from rfl) .max (finRotate 3) inputs outputs
  obtain ⟨outcomes, outcomes', hsettles, hsettles', hsame, hok⟩ :=
    htuner _ _ tuners (.allreduce 2 .int8 .max) hreachable trivial rfl
  refine ⟨hnative (.allreduce 2) trivial hfits, tuners, outcomes, outcomes', hactive, hsettles,
    hsettles', fun me => ⟨(hsame me).1, ?_⟩⟩
  have hstatus := (hsame me).2 (hsupplied.inputs me) (hsupplied.inputs (finRotate 3 me))
  exact hstatus.trans (hok hsupplied (show Supported .int8 .max by decide) me)

end Tuner

end CollectiveTuner
