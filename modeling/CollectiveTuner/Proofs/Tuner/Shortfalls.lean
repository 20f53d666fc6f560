import CollectiveTuner.Proofs.Tuner.Groups

/-!
# Buffers that are too short

A rank whose buffer is too short runs a call with zeros in its place, so the other ranks get what
they would get from zeros. The rank itself returns an error. An output that is too short stays as it
was, but one that is long enough is written also when only the input was too short.
-/

namespace CollectiveTuner

open Native Transport
open Reduction (firstOperand)

/-- The outputs matter for the contents of a bcast only. -/
theorem Request.contents_congr {n : Nat} (arithmetic : FloatArithmetic) {request : Request}
    (inputs : Fin n → Bytes) {outputs outputs' : Fin n → Bytes}
    (houtputs : request.collective = .bcast → outputs = outputs') :
    request.contents arithmetic inputs outputs = request.contents arithmetic inputs outputs' := by
  cases request with
  | bcast => rw [houtputs rfl]
  | _ => rfl

namespace Tuner

/-! ### One rank -/

section Rank

variable {me : Member} {request : Request} {input output : Bytes} {outcome : Outcome}

/-- A rank gets its output back when it was too short. -/
theorem output_restored_of_lt (hshort : output.length < request.outputBytes me) :
    (restored me request input output outcome).output = output := by
  simp only [restored, value_measure, value_standIn_of_lt hshort, Option.isSome_some, if_true]

/-- A long enough output is given back as the call left it. -/
theorem output_restored_of_le (hlong : request.outputBytes me ≤ output.length) :
    (restored me request input output outcome).output = outcome.output := by
  simp only [restored, value_measure, value_standIn_of_le hlong, Option.isSome_none,
    Bool.false_eq_true, if_false]

/-- When both buffers were long enough, a call that succeeded is one that succeeds. -/
theorem status_restored_of_le (hok : outcome.status = .ok ())
    (hinput : request.inputBytes me ≤ input.length)
    (houtput : request.outputBytes me ≤ output.length) :
    (restored me request input output outcome).status = .ok () := by
  simp only [restored, value_measure, value_standIn_of_le hinput, value_standIn_of_le houtput, hok,
    Option.or_none]

/-- The error is about the input when both buffers are too short. -/
theorem status_restored_of_input_lt (hok : outcome.status = .ok ())
    (hinput : input.length < request.inputBytes me) :
    (restored me request input output outcome).status =
      .error (.bufferSizeMismatch (request.inputBytes me) input.length) := by
  simp only [restored, value_measure, value_standIn_of_lt hinput, hok, Option.some_or]

/-- When only the output was too short, a call that succeeded fails with the lengths of the
output. -/
theorem status_restored_of_output_lt (hok : outcome.status = .ok ())
    (hinput : request.inputBytes me ≤ input.length)
    (houtput : output.length < request.outputBytes me) :
    (restored me request input output outcome).status =
      .error (.bufferSizeMismatch (request.outputBytes me) output.length) := by
  simp only [restored, value_measure, value_standIn_of_le hinput, value_standIn_of_lt houtput, hok,
    Option.none_or]

end Rank

/-! ### All ranks -/

variable {n : Nat} {arithmetic : FloatArithmetic} {host : Host} {configuration : Configuration}
  {messages integers : Nat} {tuners : Fin n → Tuner} {request : Request}
  {inputs outputs inputs' outputs' : Fin n → Bytes}

/-- The buffers of the ranks with those that are too short replaced. Zeros are in the place of an
input or of the buffer of a bcast. In the place of any other output there is a scratch buffer. -/
structure Mends (request : Request) (inputs outputs inputs' outputs' : Fin n → Bytes) : Prop where
  root : ∀ root ∈ request.root?, root < n
  input : ∀ me : Fin n, request.inputBytes ⟨me, n⟩ ≤ (inputs me).length → inputs' me = inputs me
  zeros : ∀ me : Fin n, (inputs me).length < request.inputBytes ⟨me, n⟩ →
    inputs' me = List.replicate (request.inputBytes ⟨me, n⟩) 0
  output : ∀ me : Fin n, request.outputBytes ⟨me, n⟩ ≤ (outputs me).length →
    outputs' me = outputs me
  scratch : ∀ me : Fin n, (outputs me).length < request.outputBytes ⟨me, n⟩ →
    (outputs' me).length = request.outputBytes ⟨me, n⟩
  bcast : request.collective = .bcast → ∀ me : Fin n,
    (outputs me).length < request.outputBytes ⟨me, n⟩ →
      outputs' me = List.replicate (request.outputBytes ⟨me, n⟩) 0

namespace Mends

variable (hmends : Mends request inputs outputs inputs' outputs')

include hmends

/-- A call runs with these inputs. -/
theorem input_footings (me : Fin n) : (footings request inputs outputs me).input = inputs' me := by
  rw [footings, value_measure]
  rcases Nat.lt_or_ge (inputs me).length (request.inputBytes ⟨me, n⟩) with hshort | hlong
  · rw [value_standIn_of_lt hshort, hmends.zeros me hshort]
  · rw [value_standIn_of_le hlong, hmends.input me hlong]

/-- A bcast runs with these buffers. -/
theorem output_footings_bcast (hop : request.collective = .bcast) (me : Fin n) :
    (footings request inputs outputs me).output = outputs' me := by
  rw [footings, value_measure]
  rcases Nat.lt_or_ge (outputs me).length (request.outputBytes ⟨me, n⟩) with hshort | hlong
  · rw [value_standIn_of_lt hshort, hmends.bcast hop me hshort]
  · rw [value_standIn_of_le hlong, hmends.output me hlong]

/-- Mended buffers supply the request. -/
theorem supplied : request.Supplied inputs' outputs' where
  root := hmends.root
  inputs me := by
    rcases Nat.lt_or_ge (inputs me).length (request.inputBytes ⟨me, n⟩) with hshort | hlong
    · rw [hmends.zeros me hshort, List.length_replicate]
    · rwa [hmends.input me hlong]
  outputs me := by
    rcases Nat.lt_or_ge (outputs me).length (request.outputBytes ⟨me, n⟩) with hshort | hlong
    · exact (hmends.scratch me hshort).ge
    · rwa [hmends.output me hlong]

/-- The contents of the request are those of the buffers that a call runs with. -/
theorem contents_footings :
    request.contents arithmetic (fun me => (footings request inputs outputs me).input)
        (fun me => (footings request inputs outputs me).output) =
      request.contents arithmetic inputs' outputs' := by
  rw [funext hmends.input_footings]
  exact Request.contents_congr arithmetic inputs' fun hop =>
    funext (hmends.output_footings_bcast hop)

/-- Every rank is served, and one with an output that is long enough gets what the native operation
leaves. -/
theorem served {stop : Nat} {outcomes : Fin n → Outcome} {replies : Fin n → Reply} {possible : Prop}
    (hends : Ends arithmetic (fun _ => none) 0 stop request tuners
      (fun me => (footings request inputs outputs me).input)
      (fun me => (footings request inputs outputs me).output) outcomes possible)
    (hnative : EndsWith
      (fun me => answer arithmetic me ⟨request.primitive, inputs' me, outputs' me⟩) replies)
    (hok : ∀ me, (replies me).status = .ok ()) (me : Fin n) :
    (outcomes me).status = .ok () ∧ (request.outputBytes ⟨me, n⟩ ≤ (outputs me).length →
      (outcomes me).output = (replies me).output) := by
  have haccepted := accepted_of_endsWith hmends.supplied hnative (hok me)
  have hreplies := (settles_native me.pos hmends.supplied haccepted).eq_of_endsWith hnative
  obtain ⟨hstatus, houtput⟩ := (hends.of_last_served haccepted fun _ _ => rfl).1 me
  refine ⟨hstatus, fun hlong => ?_⟩
  have hfooting : (footings request inputs outputs me).output = outputs' me := by
    rw [footings, value_measure, value_standIn_of_le hlong, hmends.output me hlong]
  rw [houtput, hreplies, hmends.contents_footings]
  exact congrArg (Bytes.overwrite · 0 _) hfooting

end Mends

/-- When no call is refused, what a call records does not depend on the buffers. -/
theorem Ends.recorder_eq {stop stop' : Nat} {outcomes outcomes' : Fin n → Outcome} {possible : Prop}
    (hends : Ends arithmetic (fun _ => none) 0 stop request tuners inputs outputs outcomes possible)
    (hends' : Ends arithmetic (fun _ => none) 0 stop' request tuners inputs' outputs' outcomes'
      possible) (haccepted : request.Accepted) (me : Fin n) :
    (outcomes me).tuner.recorder = (outcomes' me).tuner.recorder := by
  obtain ⟨-, hcarried, hfailed⟩ := hends.of_last_served haccepted fun _ _ => rfl
  obtain ⟨-, hcarried', hfailed'⟩ := hends'.of_last_served haccepted fun _ _ => rfl
  have hiff := (hends.carries_iff fun _ => rfl).trans (hends'.carries_iff fun _ => rfl).symm
  by_cases hcarries : Carries arithmetic (fun _ => none) 0 tuners request inputs outputs
  · rw [hcarried hcarries me, hcarried' (hiff.mp hcarries) me]
  · rw [hfailed hcarries me, hfailed' (fun h => hcarries (hiff.mpr h)) me]

/-- A call comes to an end with what comes of the buffers that it runs with. -/
theorem settles_perform_of_root (hn : 0 < n) (hinstep : InStep messages integers tuners)
    (hroot : ∀ root ∈ request.root?, root < n) (inputs outputs : Fin n → Bytes) :
    ∃ (stop : Nat) (outcomes : Fin n → Outcome),
      Settles (fun me => run arithmetic me
          ((tuners me).perform arithmetic request (inputs me) (outputs me)))
        (fun me => restored ⟨me, n⟩ request (inputs me) (outputs me) (outcomes me)) ∧
      Ends arithmetic (fun _ => none) 0 stop request tuners
        (fun me => (footings request inputs outputs me).input)
        (fun me => (footings request inputs outputs me).output) outcomes
        (∀ me, (tuners me).CanDecompose messages integers request) := by
  obtain ⟨stop, outcomes, hlockstep, -, hends⟩ := @lockstep_perform_of_root n arithmetic
    (fun _ => none) request _ _ tuners hn hinstep hroot inputs outputs 0
  exact ⟨stop, outcomes, hlockstep.settles fun _ => rfl, hends⟩

/-- **A buffer that is too short hurts its own rank only.** At every point between calls, when the
native operation succeeds on every rank with the buffers that are too short replaced, the call comes
to an end on every schedule. A rank whose buffers are long enough succeeds and gets what the native
operation leaves with these buffers. Any other rank gets an error with the needed and the actual
length of its first buffer that is too short. What is recorded, and whether the decompositions of
the selected algorithm succeed, is the same as with any buffers that are long enough. -/
theorem short_buffers_hurt_own_rank (hn : 0 < n)
    (hreachable : Reachable arithmetic host configuration tuners)
    (hmends : Mends request inputs outputs inputs' outputs') {replies : Fin n → Reply}
    (hnative : EndsWith
      (fun me => answer arithmetic me ⟨request.primitive, inputs' me, outputs' me⟩) replies)
    (hok : ∀ me, (replies me).status = .ok ()) :
    ∃ outcomes : Fin n → Outcome,
      Settles (fun me => run arithmetic me
        ((tuners me).perform arithmetic request (inputs me) (outputs me))) outcomes ∧
      (∀ me : Fin n, request.inputBytes ⟨me, n⟩ ≤ (inputs me).length →
        request.outputBytes ⟨me, n⟩ ≤ (outputs me).length →
          (outcomes me).status = .ok () ∧ (outcomes me).output = (replies me).output) ∧
      (∀ me : Fin n, (inputs me).length < request.inputBytes ⟨me, n⟩ →
        (outcomes me).status =
          .error (.bufferSizeMismatch (request.inputBytes ⟨me, n⟩) (inputs me).length)) ∧
      (∀ me : Fin n, request.inputBytes ⟨me, n⟩ ≤ (inputs me).length →
        (outputs me).length < request.outputBytes ⟨me, n⟩ →
          (outcomes me).status =
            .error (.bufferSizeMismatch (request.outputBytes ⟨me, n⟩) (outputs me).length)) ∧
      ∀ longInputs longOutputs : Fin n → Bytes, request.Supplied longInputs longOutputs →
        ∃ longOutcomes : Fin n → Outcome,
          Settles (fun me => run arithmetic me
            ((tuners me).perform arithmetic request (longInputs me) (longOutputs me)))
            longOutcomes ∧
          (∀ me, (outcomes me).tuner.recorder = (longOutcomes me).tuner.recorder) ∧
          (Carries arithmetic (fun _ => none) 0 tuners request
              (fun me => (footings request inputs outputs me).input)
              (fun me => (footings request inputs outputs me).output) ↔
            Carries arithmetic (fun _ => none) 0 tuners request longInputs longOutputs) := by
  have hinstep := inStep_of_reachable hreachable
  have haccepted := accepted_of_endsWith hmends.supplied hnative (hok ⟨0, hn⟩)
  obtain ⟨stop, outcomes, hsettles, hends⟩ := @settles_perform_of_root n arithmetic _ _ tuners
    request hn hinstep hmends.root inputs outputs
  have hserved := hmends.served hends hnative hok
  refine ⟨_, hsettles, ?healthy, ?input, ?output, ?long⟩
  case healthy =>
    intro me hinput houtput
    obtain ⟨hstatus, hresult⟩ := hserved me
    exact ⟨status_restored_of_le hstatus hinput houtput,
      (output_restored_of_le houtput).trans (hresult houtput)⟩
  case input =>
    intro me hinput
    exact status_restored_of_input_lt (hserved me).1 hinput
  case output =>
    intro me hinput houtput
    exact status_restored_of_output_lt (hserved me).1 hinput houtput
  case long =>
    intro longInputs longOutputs hsupplied
    obtain ⟨longStop, longOutcomes, hlong, hlongEnds⟩ := @settles_perform_of_root n arithmetic _ _
      tuners request hn hinstep hmends.root longInputs longOutputs
    simp only [footings_of_supplied hsupplied] at hlongEnds
    refine ⟨_, hlong, fun me => ?_, ?_⟩
    · exact hends.recorder_eq hlongEnds haccepted me
    · exact (hends.carries_iff fun _ => rfl).trans (hlongEnds.carries_iff fun _ => rfl).symm

/-- The second of two ranks has nothing to contribute to an allgather by a gather and a bcast. -/
theorem short_buffers_hurt_own_rank_allgather :
    ∃ (tuners : Fin 2 → Tuner) (outcomes : Fin 2 → Outcome),
      (∀ me, (tuners me).catalog.active .allgather = 4) ∧
      Settles (fun me => run firstOperand me ((tuners me).perform firstOperand
        (.allgather 1 .uint8) (if me = 0 then [5] else []) [171, 171, 171])) outcomes ∧
      (outcomes 0).status = .ok () ∧ (outcomes 0).output = [5, 0, 171] ∧
      (outcomes 1).status = .error (.bufferSizeMismatch 1 0) := by
  obtain ⟨tuners, hreachable, hactive⟩ := exists_reachable_selected
    firstOperand ⟨fun _ => .error .notFound, fun _ => .error .notFound⟩ 2
    (show (Collective.allgather.choices.any fun choice => choice.id == 4) = true by decide)
  have hmends : Mends (.allgather 1 .uint8) (fun me : Fin 2 => if me = 0 then [5] else [])
      (fun _ => [171, 171, 171]) (fun me => if me = 0 then [5] else [0])
      fun _ => [171, 171, 171] :=
    ⟨by decide, by decide, by decide, by decide, by decide, by decide⟩
  obtain ⟨outcomes, hsettles, hhealthy, hinput, -⟩ := short_buffers_hurt_own_rank (by decide)
    hreachable hmends (settles_native (by decide) hmends.supplied trivial).endsWith fun _ => rfl
  obtain ⟨hstatus, houtput⟩ := hhealthy 0 (by decide) (by decide)
  exact ⟨tuners, outcomes, hactive, hsettles, hstatus, houtput.trans (by decide),
    hinput 1 (by decide)⟩

/-! ### The caller's buffers after an error -/

/-- **An output that is too short stays as it was.** At every point between calls, a call comes to
an end on every schedule, and a rank whose output is too short gets it back unchanged, whatever
else happens. When only the input of a rank is too short, its output is written all the same: when
the native operation succeeds on every rank with the buffers that are too short replaced, the rank
gets an error and what the native operation leaves with these buffers. -/
theorem short_output_is_kept (hn : 0 < n)
    (hreachable : Reachable arithmetic host configuration tuners) (request : Request)
    (inputs outputs : Fin n → Bytes) :
    ∃ outcomes : Fin n → Outcome,
      Settles (fun me => run arithmetic me
        ((tuners me).perform arithmetic request (inputs me) (outputs me))) outcomes ∧
      (∀ me : Fin n, (outputs me).length < request.outputBytes ⟨me, n⟩ →
        (outcomes me).output = outputs me) ∧
      ∀ (inputs' outputs' : Fin n → Bytes) (replies : Fin n → Reply),
        Mends request inputs outputs inputs' outputs' →
        EndsWith (fun me => answer arithmetic me ⟨request.primitive, inputs' me, outputs' me⟩)
          replies → (∀ me, (replies me).status = .ok ()) →
        ∀ me : Fin n, (inputs me).length < request.inputBytes ⟨me, n⟩ →
          request.outputBytes ⟨me, n⟩ ≤ (outputs me).length →
            (outcomes me).status =
                .error (.bufferSizeMismatch (request.inputBytes ⟨me, n⟩) (inputs me).length) ∧
              (outcomes me).output = (replies me).output := by
  have hinstep := inStep_of_reachable hreachable
  by_cases hroot : ∀ root ∈ request.root?, root < n
  · obtain ⟨stop, outcomes, hsettles, hends⟩ := @settles_perform_of_root n arithmetic _ _ tuners
      request hn hinstep hroot inputs outputs
    refine ⟨_, hsettles, fun me hshort => output_restored_of_lt hshort, ?_⟩
    intro inputs' outputs' replies hmends hnative hok me hinput houtput
    obtain ⟨hstatus, hresult⟩ := hmends.served hends hnative hok me
    exact ⟨status_restored_of_input_lt hstatus hinput,
      (output_restored_of_le houtput).trans (hresult houtput)⟩
  · choose statuses hperform using fun me => @perform_of_not_root arithmetic request (tuners me)
      (inputs me) (outputs me) (by rwa [hinstep.me])
    simp only [hperform]
    refine ⟨_, settles_done _, fun me _ => rfl, ?_⟩
    intro inputs' outputs' replies hmends
    exact absurd hmends.root hroot

/-- The root of a reduce has room for one of three elements. -/
theorem short_output_is_kept_reduce :
    ∃ (tuners : Fin 2 → Tuner) (outcomes : Fin 2 → Outcome),
      (∀ me, (tuners me).catalog.active .reduce = 2) ∧
      Settles (fun me => run firstOperand me ((tuners me).perform firstOperand
        (.reduce 3 .uint8 .sum 0) [1, 2, 3] (if me = 0 then [171] else []))) outcomes ∧
      (outcomes 0).output = [171] := by
  obtain ⟨tuners, hreachable, hactive⟩ := exists_reachable_selected
    firstOperand ⟨fun _ => .error .notFound, fun _ => .error .notFound⟩ 2
    (show (Collective.reduce.choices.any fun choice => choice.id == 2) = true by decide)
  obtain ⟨outcomes, hsettles, hkept, -⟩ := short_output_is_kept (by decide) hreachable
    (.reduce 3 .uint8 .sum 0) (fun _ => [1, 2, 3]) fun me => if me = 0 then [171] else []
  exact ⟨tuners, outcomes, hactive, hsettles, hkept 0 (by decide)⟩

/-- The second of two ranks has nothing to contribute to an allgather. It gets an error, but its
output has changed. -/
theorem short_input_changes_output :
    ∃ (tuners : Fin 2 → Tuner) (outcomes : Fin 2 → Outcome),
      Reachable firstOperand (Files.host ⟨fun _ => .error .notFound, fun _ => .error .notFound⟩)
        Configuration.default tuners ∧
      Settles (fun me => run firstOperand me ((tuners me).perform firstOperand
        (.allgather 1 .uint8) (if me = 0 then [5] else []) [171, 171])) outcomes ∧
      (outcomes 1).status = .error (.bufferSizeMismatch 1 0) ∧
      (outcomes 1).output ≠ [171, 171] := by
  obtain ⟨tuners, hstart⟩ := exists_started
    ⟨fun _ => .error .notFound, fun _ => .error .notFound⟩ 2
  have hreachable : Reachable firstOperand _ Configuration.default tuners := .started hstart
  have hmends : Mends (.allgather 1 .uint8) (fun me : Fin 2 => if me = 0 then [5] else [])
      (fun _ => [171, 171]) (fun me => if me = 0 then [5] else [0]) fun _ => [171, 171] :=
    ⟨by decide, by decide, by decide, by decide, by decide, by decide⟩
  obtain ⟨stop, outcomes, hsettles, hends⟩ := settles_perform_of_root (by decide)
    (inStep_of_reachable hreachable) hmends.root (fun me : Fin 2 => if me = 0 then [5] else [])
    fun _ => [171, 171]
  obtain ⟨hstatus, houtput⟩ := hmends.served hends
    (settles_native (by decide) hmends.supplied trivial).endsWith (fun _ => rfl) 1
  refine ⟨tuners, _, hreachable, hsettles, status_restored_of_input_lt hstatus (by decide), ?_⟩
  rw [output_restored_of_le (by decide), houtput (by decide)]
  decide

end Tuner

end CollectiveTuner
