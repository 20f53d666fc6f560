import CollectiveTuner.Proofs.Tuner.Choices
import CollectiveTuner.Proofs.Tuner.Machine

/-!
# What a tuner leaves behind

A call comes to a result that some algorithm has produced, or to an error without one. A rank is
followed from its start through any calls and choices together with the results of its calls.
When it records, its telemetry names for every operation and message size the algorithm of the
last result, and nothing but results has any influence on it.
-/

namespace CollectiveTuner

namespace Tuner

open Request
open Reduction (firstOperand)

/-! ### What a call comes to -/

section Call

variable {arithmetic : FloatArithmetic} {replies : Replies} {tuner : Tuner} {request : Request}
  {input output : Bytes}

/-- The buffers that a call runs with. -/
def footing (tuner : Tuner) (request : Request) (input output : Bytes) : Footing :=
  (measure tuner.me request input output).value

/-- How the decomposition of a call ends on these replies, and the calls that it makes. -/
def tried (arithmetic : FloatArithmetic) (replies : Replies) (tuner : Tuner) (request : Request)
    (input output : Bytes) : Option ((Except Error Unit × Workspace) × List Call) :=
  let footing := tuner.footing request input output
  (tuner.decomposition? arithmetic request footing.input).map fun attempt =>
    (attempt.run.run ⟨tuner.arena, footing.output⟩).answered replies

/-- What a call comes to on these replies: the algorithm that has produced its result, or the error
that has left it without one. It runs with buffers that are long enough, so a buffer of the caller
that is too short makes no difference. -/
inductive ComesTo (arithmetic : FloatArithmetic) (replies : Replies) (tuner : Tuner)
    (request : Request) (input output : Bytes) :
    Except Error (Algorithm request.collective) → Prop
  | refused {root : Nat} (hroot : request.root? = some root) (hlarge : tuner.me.size ≤ root) :
      ComesTo arithmetic replies tuner request input output
        (.error (.invalidRank root tuner.me.size))
  | decomposed {algorithm : Algorithm request.collective} {workspace : Workspace}
      {made : List Call} (hroot : ∀ root ∈ request.root?, root < tuner.me.size)
      (hselected : Algorithm.ofId? request.collective (tuner.selected request) = some algorithm)
      (hends : tuner.tried arithmetic replies request input output =
        some ((.ok (), workspace), made)) :
      ComesTo arithmetic replies tuner request input output (.ok algorithm)
  | fellBack {error : Error} {workspace : Workspace} {made : List Call}
      (hroot : ∀ root ∈ request.root?, root < tuner.me.size)
      (hends : tuner.tried arithmetic replies request input output =
        some ((.error error, workspace), made)) :
      ComesTo arithmetic replies tuner request input output
        ((replies made.length
          ⟨request.primitive, (tuner.footing request input output).input,
            workspace.output⟩).status.map fun _ => .native request.collective)
  | native (hroot : ∀ root ∈ request.root?, root < tuner.me.size)
      (hends : tuner.tried arithmetic replies request input output = none) :
      ComesTo arithmetic replies tuner request input output
        ((replies 0
          ⟨request.primitive, (tuner.footing request input output).input,
            (tuner.footing request input output).output⟩).status.map
              fun _ => .native request.collective)

/-- No call comes to two things. -/
theorem ComesTo.unique {first second : Except Error (Algorithm request.collective)}
    (hfirst : ComesTo arithmetic replies tuner request input output first)
    (hsecond : ComesTo arithmetic replies tuner request input output second) : first = second := by
  have houtside {root : Nat} (hroot : request.root? = some root) (hlarge : tuner.me.size ≤ root)
      (hvalid : ∀ root ∈ request.root?, root < tuner.me.size) : False :=
    absurd (hvalid root hroot) (by omega)
  cases hfirst with
  | refused hroot hlarge =>
    cases hsecond with
    | refused hroot' => rw [Option.some.inj (hroot.symm.trans hroot')]
    | decomposed hvalid | fellBack hvalid | native hvalid =>
      exact (houtside hroot hlarge hvalid).elim
  | decomposed hvalid hselected hends =>
    cases hsecond with
    | refused hroot hlarge => exact (houtside hroot hlarge hvalid).elim
    | decomposed _ hselected' => rw [Option.some.inj (hselected.symm.trans hselected')]
    | fellBack _ hends' | native _ hends' => cases hends.symm.trans hends'
  | fellBack hvalid hends =>
    cases hsecond with
    | refused hroot hlarge => exact (houtside hroot hlarge hvalid).elim
    | fellBack _ hends' =>
      cases hends.symm.trans hends'
      rfl
    | decomposed _ _ hends' | native _ hends' => cases hends.symm.trans hends'
  | native hvalid hends =>
    cases hsecond with
    | refused hroot hlarge => exact (houtside hroot hlarge hvalid).elim
    | native => rfl
    | decomposed _ _ hends' | fellBack _ hends' => cases hends.symm.trans hends'

/-- A root outside the group is refused by its number. -/
theorem performed_of_outside {root : Nat} (hroot : request.root? = some root)
    (hlarge : tuner.me.size ≤ root) :
    (performed arithmetic replies tuner request input output).1 =
      ⟨.error (.invalidRank root tuner.me.size), output, tuner, []⟩ := by
  have hsome : (request.root?.filter fun root => tuner.me.size ≤ root) = some root := by
    simp [hroot, hlarge]
  unfold performed perform
  rw [hsome]
  rfl

/-- A call that has a decomposition has not selected the native algorithm. -/
theorem selected_ne_default {attempt : Attempt Unit}
    (hattempt : tuner.decomposition? arithmetic request input = some attempt) :
    tuner.selected request ≠ defaultAlgorithm := by
  obtain ⟨algorithm, hselected, hdecomposition⟩ := Option.bind_eq_some_iff.mp hattempt
  have hnative : algorithm ≠ .native request.collective := by
    rintro rfl
    rw [decomposition?_native] at hdecomposition
    cases hdecomposition
  rw [← id_of_ofId? hselected]
  exact id_ne_default hnative

/-- What comes back from a call inside the group is concluded with what the call comes to. -/
theorem ComesTo.concluded {ending : Except Error (Algorithm request.collective)}
    (hcomes : ComesTo arithmetic replies tuner request input output ending)
    (hvalid : ∀ root ∈ request.root?, root < tuner.me.size) :
    ∃ (algorithm : Algorithm request.collective) (events : List Event) (arena : Scratch.Arena)
      (reply : Reply),
      (performed arithmetic replies tuner request input output).1 =
        restored tuner.me request input output
          (Tuner.concluded tuner request algorithm.id events arena reply) ∧
      ending = reply.status.map fun _ => algorithm := by
  have hperformed := @performed_of_root arithmetic replies tuner request input output hvalid
    (tuner.footing request input output) rfl
  rw [hperformed]
  cases hcomes with
  | refused hroot hlarge => exact absurd (hvalid _ hroot) (by omega)
  | @decomposed algorithm workspace made _ hselected hends =>
    obtain ⟨attempt, hattempt, hanswered⟩ := Option.map_eq_some_iff.mp hends
    obtain ⟨events, events', hdispatch⟩ := @dispatch_of_some _ _ _ _
      (tuner.footing request input output).output _ hattempt (selected_ne_default hattempt)
    refine ⟨algorithm, events, workspace.arena, ⟨.ok (), workspace.output⟩, ?_, rfl⟩
    rw [Script.answered] at hanswered
    rw [hdispatch, Script.answered, Script.answeredFrom_bind, hanswered, id_of_ofId? hselected]
    rfl
  | @fellBack error workspace made _ hends =>
    obtain ⟨attempt, hattempt, hanswered⟩ := Option.map_eq_some_iff.mp hends
    obtain ⟨events, events', hdispatch⟩ := @dispatch_of_some _ _ _ _
      (tuner.footing request input output).output _ hattempt (selected_ne_default hattempt)
    let call : Call :=
      ⟨request.primitive, (tuner.footing request input output).input, workspace.output⟩
    refine ⟨.native request.collective, events' error, workspace.arena,
      replies (0 + made.length) call, ?_, by rw [Nat.zero_add]⟩
    rw [Script.answered] at hanswered
    rw [hdispatch, Script.answered, Script.answeredFrom_bind, hanswered]
    rfl
  | native _ hends =>
    obtain ⟨events, hdispatch⟩ := @dispatch_of_none _ _ _ _
      (tuner.footing request input output).output (Option.map_eq_none_iff.mp hends)
    refine ⟨.native request.collective, events, tuner.arena, _, ?_, rfl⟩
    rw [hdispatch]
    rfl

/-- The recorder after a call that comes to this. -/
def recorded (tuner : Tuner) (request : Request) :
    Except Error (Algorithm request.collective) → Option Recorder
  | .ok algorithm => tuner.recorder.map fun recorder =>
      recorder.record request.collective request.messageBytes algorithm.id
  | .error _ => tuner.recorder

/-- A result is recorded and an error is not. An error comes back, and a result only if no buffer
of the caller was too short. -/
theorem ComesTo.recorder_and_status {ending : Except Error (Algorithm request.collective)}
    (hcomes : ComesTo arithmetic replies tuner request input output ending) :
    let outcome := (performed arithmetic replies tuner request input output).1
    outcome.tuner.recorder = tuner.recorded request ending ∧
      outcome.status = ending.bind fun _ =>
        match (tuner.footing request input output).mismatch with
        | some error => .error error
        | none => .ok () := by
  dsimp only
  by_cases hvalid : ∀ root ∈ request.root?, root < tuner.me.size
  · obtain ⟨algorithm, events, arena, reply, hperformed, rfl⟩ := hcomes.concluded hvalid
    rw [hperformed]
    unfold restored Tuner.concluded footing
    cases reply.status with
    | error error => exact ⟨rfl, rfl⟩
    | ok =>
      refine ⟨rfl, ?_⟩
      dsimp only [Except.map, Except.bind]
      cases (measure tuner.me request input output).value.mismatch <;> rfl
  · cases hcomes with
    | refused hroot hlarge =>
      rw [performed_of_outside hroot hlarge]
      exact ⟨rfl, rfl⟩
    | decomposed hinside | fellBack hinside | native hinside => exact absurd hinside hvalid

/-- What comes back from a call on these replies, if the rank does not stop. -/
def returned? (host : Host) (arithmetic : FloatArithmetic) (replies : Replies) (tuner : Tuner)
    (request : Request) (input output : Bytes) : Option Outcome :=
  ((tuner.performOn host arithmetic request input output).answered replies).1

section Returned

variable {host : Host}

end Returned

end Call

/-! ### Results over a whole run -/

/-- A result of a call: its operation and message size, and the algorithm that has produced it. -/
structure Result where
  /-- The operation. -/
  op : Collective
  /-- The message size of the call in bytes. -/
  size : Nat
  /-- The algorithm that has produced the result. -/
  algorithm : Algorithm op

/-- The last result of an operation for a message size. -/
def last? (results : List Result) (op : Collective) (size : Nat) : Option Result :=
  (results.filter fun result => result.op = op ∧ result.size = size).getLast?

/-- A last result replaces the one before for the same operation and size. -/
theorem last?_append_singleton (results : List Result) (result : Result) (op : Collective)
    (size : Nat) : last? (results ++ [result]) op size =
      if op = result.op ∧ size = result.size then some result else last? results op size := by
  unfold last?
  rw [List.filter_append, List.getLast?_append, List.filter_singleton]
  by_cases hsame : result.op = op ∧ result.size = size
  · simp [hsame]
  · have hother : ¬ (op = result.op ∧ size = result.size) := by
      rintro ⟨rfl, rfl⟩
      exact hsame ⟨rfl, rfl⟩
    simp [hsame, hother]

/-- The runs of one rank from its start: any choices and calls that come back, with any buffers and
replies, together with the results of the calls in order. -/
inductive History (arithmetic : FloatArithmetic) (host : Host) (configuration : Configuration)
    (me : Member) : List Result → Tuner → Prop
  | started {tuner : Tuner} (hstart : (start host me configuration).run.value = .ok tuner) :
      History arithmetic host configuration me [] tuner
  | chosen {results : List Result} {tuner : Tuner} (op : Collective) (id : AlgorithmId)
      (hbefore : History arithmetic host configuration me results tuner) :
      History arithmetic host configuration me results (Session.choose tuner op id)
  | produced {results : List Result} {tuner : Tuner} {request : Request} {replies : Replies}
      {input output : Bytes} {algorithm : Algorithm request.collective} {outcome : Outcome}
      (hbefore : History arithmetic host configuration me results tuner)
      (hcomes : ComesTo arithmetic replies tuner request input output (.ok algorithm))
      (hreturned : returned? host arithmetic replies tuner request input output = some outcome) :
      History arithmetic host configuration me
        (results ++ [⟨request.collective, request.messageBytes, algorithm⟩]) outcome.tuner
  | failed {results : List Result} {tuner : Tuner} {request : Request} {replies : Replies}
      {input output : Bytes} {error : Error} {outcome : Outcome}
      (hbefore : History arithmetic host configuration me results tuner)
      (hcomes : ComesTo arithmetic replies tuner request input output (.error error))
      (hreturned : returned? host arithmetic replies tuner request input output = some outcome) :
      History arithmetic host configuration me results outcome.tuner

/-- The recorder has the algorithms of the last results and nothing else. -/
def HoldsLast (recorder : Recorder) (results : List Result) : Prop :=
  ∀ op size, recorder.recorded? op size =
    (last? results op size).map fun result => result.algorithm.id

/-- What the results so far have to do with a rank's tuner. -/
structure KeepsLast (configuration : Configuration) (me : Member) (results : List Result)
    (tuner : Tuner) : Prop where
  configured : tuner.configuration = configuration
  records : configuration.recordAlgorithms = true → me.rank = 0 →
    ∃ recorder, tuner.recorder = some recorder ∧ HoldsLast recorder results
  omits : ¬ (configuration.recordAlgorithms = true ∧ me.rank = 0) → tuner.recorder = none

section History

variable {arithmetic : FloatArithmetic} {host : Host} {configuration : Configuration}
  {me : Member} {tuner : Tuner} {results : List Result}

/-- A tuner with the same configuration and recorder keeps the same results. -/
theorem KeepsLast.of_recorder_eq {after : Tuner}
    (hkeeps : KeepsLast configuration me results tuner)
    (hconfiguration : after.configuration = tuner.configuration)
    (hrecorder : after.recorder = tuner.recorder) : KeepsLast configuration me results after where
  configured := hconfiguration.trans hkeeps.configured
  records hrecord hrank := hrecorder ▸ hkeeps.records hrecord hrank
  omits hnot := hrecorder ▸ hkeeps.omits hnot

/-- Choosing an algorithm keeps the last results. -/
theorem KeepsLast.choose (hkeeps : KeepsLast configuration me results tuner) (op : Collective)
    (id : AlgorithmId) : KeepsLast configuration me results (Session.choose tuner op id) := by
  rcases choose_cases tuner op id with ⟨-, hchosen⟩ | ⟨-, hsame⟩
  · rw [hchosen]
    exact hkeeps.of_recorder_eq rfl rfl
  · rw [hsame]
    exact hkeeps

/-- Recording a result makes it the last one. -/
theorem HoldsLast.record {recorder : Recorder} (hholds : HoldsLast recorder results)
    (result : Result) :
    HoldsLast (recorder.record result.op result.size result.algorithm.id)
      (results ++ [result]) := by
  intro op size
  rw [Recorder.recorded?_record, last?_append_singleton]
  split
  · rfl
  · exact hholds op size

variable {request : Request} {replies : Replies} {input output : Bytes}

/-- A call that comes to an algorithm adds its result to the last ones. -/
theorem KeepsLast.produced (hkeeps : KeepsLast configuration me results tuner)
    {algorithm : Algorithm request.collective}
    (hcomes : ComesTo arithmetic replies tuner request input output (.ok algorithm)) :
    KeepsLast configuration me (results ++ [⟨request.collective, request.messageBytes, algorithm⟩])
      (performed arithmetic replies tuner request input output).1.tuner := by
  have hrecorder := hcomes.recorder_and_status.1
  have hsame := sameSetup_performed arithmetic replies tuner request input output
  refine ⟨hsame.configuration.trans hkeeps.configured, fun hrecord hrank => ?_, fun hnot => ?_⟩
  · obtain ⟨recorder, hsome, hholds⟩ := hkeeps.records hrecord hrank
    rw [hrecorder, recorded, hsome]
    exact ⟨_, rfl, hholds.record ⟨request.collective, request.messageBytes, algorithm⟩⟩
  · rw [hrecorder, recorded, hkeeps.omits hnot]
    rfl

/-- A call that comes to an error adds no result. -/
theorem KeepsLast.failed (hkeeps : KeepsLast configuration me results tuner) {error : Error}
    (hcomes : ComesTo arithmetic replies tuner request input output (.error error)) :
    KeepsLast configuration me results
      (performed arithmetic replies tuner request input output).1.tuner :=
  hkeeps.of_recorder_eq
    (sameSetup_performed arithmetic replies tuner request input output).configuration
    hcomes.recorder_and_status.1

end History

/-! ### Lines -/

/-- The line about the last result for a message size. -/
def Result.line (result : Result) : String :=
  "#@pgmpi alg " ++ result.op.name ++ " " ++ toString result.size ++ " " ++ result.algorithm.name

section Lines

variable {recorder : Recorder} {results : List Result}

end Lines

/-! ### Telemetry -/

section Telemetry

variable {arithmetic : FloatArithmetic} {host : Host} {configuration : Configuration}
  {me : Member} {tuner : Tuner} {results : List Result}

end Telemetry

end Tuner

end CollectiveTuner
