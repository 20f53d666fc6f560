import CollectiveTuner.Proofs.Tuner.Groups

/-!
# Refused calls

A communicator may refuse calls, each of them on all ranks at once. The decomposition that makes a
refused call fails and may have written to the caller's buffer by then. The native operation that
runs after it still leaves what it always leaves. A call fails only when that is refused as well.
-/

namespace CollectiveTuner

/-- What a record shows after one more result: this algorithm for its operation and message size,
and for everything else what it has shown before. -/
structure Recorder.Adds (op : Collective) (size : Nat) (id : AlgorithmId)
    (before after : Recorder) : Prop where
  /-- The algorithm of the result is shown. -/
  shown : after.recorded? op size = some id
  /-- Everything else is shown as before. -/
  kept : ∀ other otherSize, ¬ (other = op ∧ otherSize = size) →
    after.recorded? other otherSize = before.recorded? other otherSize

/-- What is recorded is what the record shows. -/
theorem Recorder.adds_record (recorder : Recorder) (op : Collective) (size : Nat)
    (id : AlgorithmId) : Adds op size id recorder (recorder.record op size id) where
  shown := by rw [recorded?_record, if_pos ⟨rfl, rfl⟩]
  kept other otherSize hother := by rw [recorded?_record, if_neg hother]

namespace Tuner

open Native Scratch Request Transport
open Reduction (firstOperand)

variable {n : Nat} {arithmetic : FloatArithmetic} {host : Host} {configuration : Configuration}
  {tuners : Fin n → Tuner} {request : Request} {inputs outputs : Fin n → Bytes}

/-- A call of one rank while some primitive calls are refused. The primitive calls that it makes
come with its outcome. -/
def performUnder (arithmetic : FloatArithmetic) (refusals : Refusals n) (me : Fin n)
    (tuner : Tuner) (request : Request) (input output : Bytes) :
    RankProgram n (Outcome × List Call) :=
  run arithmetic me
    (Script.monitored (refusals.on me) (tuner.perform arithmetic request input output))

/-- The tuners that the ranks of a group have at some point between calls when calls may be
refused. Each call has any buffers, and any of its primitive calls are refused on all ranks. -/
inductive ReachableUnder (arithmetic : FloatArithmetic) (host : Host)
    (configuration : Configuration) : (Fin n → Tuner) → Prop
  | started {tuners : Fin n → Tuner}
      (hstart : ∀ me : Fin n, (start host ⟨me, n⟩ configuration).run.value = .ok (tuners me)) :
      ReachableUnder arithmetic host configuration tuners
  | selected {tuners after : Fin n → Tuner} (op : Collective) (id : AlgorithmId)
      (hbefore : ReachableUnder arithmetic host configuration tuners)
      (hafter : ∀ me, (tuners me).setAlgorithm op id = .ok (after me)) :
      ReachableUnder arithmetic host configuration after
  | called {tuners : Fin n → Tuner} {results : Fin n → Outcome × List Call} (request : Request)
      (inputs outputs : Fin n → Bytes) (refusals : Refusals n)
      (hbefore : ReachableUnder arithmetic host configuration tuners)
      (hcall : EndsWith (fun me =>
        performUnder arithmetic refusals me (tuners me) request (inputs me) (outputs me)) results) :
      ReachableUnder arithmetic host configuration fun me => (results me).1.tuner

/-- Refused calls leave the tuners in step. -/
theorem inStep_of_reachableUnder
    (hreachable : ReachableUnder arithmetic host configuration tuners) :
    InStep configuration.messageBytes.value (configuration.integerBytes.value / countSize)
      tuners := by
  induction hreachable with
  | started hstart => exact inStep_of_start hstart
  | selected _ _ _ hafter ih => exact ih.setAlgorithm hafter
  | called request inputs outputs refusals _ hcall ih =>
    obtain ⟨_, outcomes, hlockstep, hafter, -⟩ := @lockstep_perform _ arithmetic refusals _ _ _ ih
      request inputs outputs 0
    obtain ⟨calls, hsettles, -⟩ := hlockstep.settles_monitored
    rw [hsettles.eq_of_endsWith hcall]
    exact hafter

/-- The records of all ranks show these algorithms for the request afterwards, and nothing else has
changed in them. A rank that had no record has none. -/
def Shows (request : Request) (tuners : Fin n → Tuner) (ids : Fin n → AlgorithmId)
    (outcomes : Fin n → Outcome) : Prop :=
  ∀ me, Option.Rel (Recorder.Adds request.collective request.messageBytes (ids me))
    (tuners me).recorder (outcomes me).tuner.recorder

/-- What the ranks have recorded is shown. -/
theorem shows_of_records {ids : Fin n → AlgorithmId} {outcomes : Fin n → Outcome}
    (hrecords : Records request tuners ids outcomes) : Shows request tuners ids outcomes := by
  intro me
  rw [hrecords me]
  cases (tuners me).recorder with
  | none => exact .none
  | some recorder => exact .some (recorder.adds_record _ _ _)

/-- The decompositions of a call carry it out exactly if they are possible and no primitive call
is refused. -/
theorem Ends.carries_iff_intact {refusals : Refusals n} {stop : Nat} {outcomes : Fin n → Outcome}
    {possible : Prop}
    (hends : Ends arithmetic refusals 0 stop request tuners inputs outputs outcomes possible) :
    Carries arithmetic refusals 0 tuners request inputs outputs ↔
      possible ∧ ∀ called < stop, refusals called = none := by
  cases hends with
  | decomposed hpossible hcarried hnone =>
    exact ⟨fun _ => ⟨hpossible, fun called => hnone called (Nat.zero_le called)⟩, fun _ => hcarried⟩
  | native last _ hstop hcause hfailed =>
    refine ⟨fun hcarried => absurd hcarried hfailed, fun ⟨hpossible, hnone⟩ => ?_⟩
    obtain ⟨called, hcalled, hrefused⟩ := hcause hpossible
    exact absurd (hnone called (by omega)) hrefused

/-- **Refused calls are made good.** At every point between calls, when any primitive calls of a
call are refused, it comes to an end on every schedule, and all ranks make the same number of
primitive calls. The decompositions of the selected algorithm, carried out by themselves with the
same primitive calls refused, succeed exactly if they are possible and none of these calls is
refused.

Unless the last primitive call is refused, all ranks succeed and get what the native operation
leaves whenever that succeeds. Their records then show the selected algorithm if the decompositions
succeed and the native one if not, and have changed in nothing else. When the last primitive call
is refused, all ranks get its error and record nothing, and if the selected algorithm can decompose
the request, an earlier call was refused as well. -/
theorem refusals_are_made_good (hn : 0 < n)
    (hreachable : ReachableUnder arithmetic host configuration tuners)
    (hsupplied : request.Supplied inputs outputs) (refusals : Refusals n) :
    let possible := ∀ me, (tuners me).CanDecompose configuration.messageBytes.value
      (configuration.integerBytes.value / countSize) request
    let carried := Carries arithmetic refusals 0 tuners request inputs outputs
    ∃ (outcomes : Fin n → Outcome) (calls : Fin n → List Call) (stop : Nat),
      Settles (fun me =>
          performUnder arithmetic refusals me (tuners me) request (inputs me) (outputs me))
        (fun me => (outcomes me, calls me)) ∧
      (∀ me, (calls me).length = stop) ∧
      (carried ↔ possible ∧ ∀ called < stop, refusals called = none) ∧
      ((∀ last, stop = last + 1 → refusals last = none) → ∀ replies : Fin n → Reply,
        EndsWith (fun me => answer arithmetic me ⟨request.primitive, inputs me, outputs me⟩)
          replies → (∀ me, (replies me).status = .ok ()) →
        (∀ me, (outcomes me).status = .ok () ∧ (outcomes me).output = (replies me).output) ∧
          (carried → Shows request tuners (fun me => (tuners me).selected request) outcomes) ∧
          (¬ carried → Shows request tuners (fun _ => defaultAlgorithm) outcomes)) ∧
      ∀ last errors, stop = last + 1 → refusals last = some errors →
        (∀ me, (outcomes me).status = .error (errors me) ∧
          (outcomes me).tuner.recorder = (tuners me).recorder) ∧
        (possible → ∃ called < last, refusals called ≠ none) := by
  intro possible carried
  have hinstep := inStep_of_reachableUnder hreachable
  obtain ⟨stop, outcomes, hlockstep, -, hends⟩ := @lockstep_perform_of_root n arithmetic refusals
    request _ _ tuners hn hinstep hsupplied.root inputs outputs 0
  simp only [footings_of_supplied hsupplied] at hends
  have hrestored (me : Fin n) := restored_of_supplied hsupplied me (outcomes me)
  obtain ⟨calls, hsettles, hlength⟩ := hlockstep.settles_monitored
  refine ⟨_, calls, stop, hsettles, fun me => ?_, hends.carries_iff_intact,
    fun hlast replies hnative hok => ?_, fun last errors hstop hrefused => ?_⟩
  · have hme := hlength me
    omega
  · have haccepted := accepted_of_endsWith hsupplied hnative (hok ⟨0, hn⟩)
    have hreplies := (settles_native hn hsupplied haccepted).eq_of_endsWith hnative
    obtain ⟨hdelivers, hcarried, hfailed⟩ := hends.of_last_served haccepted hlast
    refine ⟨fun me => ?_, fun hcarries => shows_of_records (hcarried hcarries),
      fun hfails => shows_of_records (hfailed hfails)⟩
    rw [(hrestored me).1, (hrestored me).2, hreplies]
    exact hdelivers me
  · obtain ⟨hcause, herrors⟩ := hends.of_last_refused (Nat.zero_le last) hstop hrefused
    refine ⟨fun me => ?_, hcause⟩
    rw [(hrestored me).1]
    exact herrors me

/-- Two ranks add up their elements by a reduce and a bcast, and the reduce is refused. -/
theorem refusals_are_made_good_sum :
    ∃ (tuners : Fin 2 → Tuner) (outcomes : Fin 2 → Outcome) (calls : Fin 2 → List Call),
      (∀ me, (tuners me).selected (.allreduce 1 .uint8 .sum) = 1) ∧
      Settles (fun me => performUnder firstOperand
          (fun position => if position = 0 then some fun _ => .transport "refused" none else none)
          me (tuners me) (.allreduce 1 .uint8 .sum) (if me = 0 then [1] else [2]) [0, 7])
        (fun me => (outcomes me, calls me)) ∧
      ∀ me, (outcomes me).status = .ok () ∧ (outcomes me).output = [3, 7] := by
  obtain ⟨started, chosen, hstart, hchosen, hselected⟩ := exists_chosen
    ⟨fun _ => .error .notFound, fun _ => .error .notFound⟩ 2
    (show (Collective.allreduce.choices.any fun choice => choice.id == 1) = true by decide)
  have hreachable : ReachableUnder firstOperand _ Configuration.default chosen :=
    .selected .allreduce 1 (.started hstart) hchosen
  have hsupplied : (Request.allreduce 1 .uint8 .sum).Supplied
      (fun me : Fin 2 => if me = 0 then [1] else [2]) (fun _ => [0, 7]) :=
    ⟨by decide, by decide, by decide⟩
  have haccepted : (Request.allreduce 1 .uint8 .sum).Accepted :=
    show Reduction.Supported .uint8 .sum by decide
  obtain ⟨outcomes, calls, stop, hsettles, -, -, hserved, hrefused⟩ := refusals_are_made_good
    (by decide) hreachable hsupplied
    fun position => if position = 0 then some fun _ => .transport "refused" none else none
  -- The decomposition is possible, so the refused call cannot have been the native one.
  have hother : Algorithm.allreduceAsReduceBcast ≠ .native .allreduce := by
    intro hnative
    cases hnative
  have hpossible (messages integers : Nat) (me : Fin 2) :
      (chosen me).CanDecompose messages integers (.allreduce 1 .uint8 .sum) :=
    ⟨.allreduceAsReduceBcast, congrArg (Algorithm.ofId? .allreduce) (hselected me 1), hother,
      trivial, haccepted⟩
  have hlast (last : Nat) (hstop : stop = last + 1) :
      (if last = 0 then some fun _ : Fin 2 => Error.transport "refused" none else none) = none := by
    refine if_neg fun hzero => ?_
    obtain ⟨called, hcalled, -⟩ := (hrefused last _ hstop (if_pos hzero)).2 (hpossible _ _)
    omega
  obtain ⟨houtcomes, -⟩ := hserved hlast _
    (settles_native (by decide) hsupplied haccepted).endsWith fun _ => rfl
  refine ⟨chosen, outcomes, calls, fun me => hselected me _, hsettles, fun me =>
    ⟨(houtcomes me).1, (houtcomes me).2.trans ?_⟩⟩
  revert me
  decide

end Tuner

end CollectiveTuner
