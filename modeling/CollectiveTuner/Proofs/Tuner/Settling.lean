import CollectiveTuner.Proofs.Tuner.ControlFlow

/-!
# What a call settles on

A dispatch has two parts. The first one runs the decomposition, if there is one, and settles on an
algorithm. The second one runs the native operation if that is what the first has settled on, and
records. Whatever comes back from primitive calls, a call changes no more of the tuner than scratch
space and the recorder.
-/

namespace CollectiveTuner

open Native

/-! ### Values of scripts -/

namespace Script

variable {α β : Type}

/-- Whatever its calls come back with, the script ends with a value of this kind. -/
def Always (kind : α → Prop) : Script α → Prop
  | .done value => kind value
  | .ask _ next => ∀ reply, Always kind (next reply)

/-- Every script always has some value. -/
theorem always_true (script : Script α) : script.Always fun _ => True := by
  induction script with
  | done => trivial
  | ask _ _ ih => exact ih

/-- What always holds of the first script's value carries over to the second script. -/
theorem Always.bind {kind : α → Prop} {kind' : β → Prop} {script : Script α}
    {next : α → Script β} (hfirst : script.Always kind)
    (hnext : ∀ value, kind value → (next value).Always kind') :
    Always kind' (script.bind next) := by
  induction script with
  | done value => exact hnext value hfirst
  | ask _ _ ih => exact fun reply => ih reply (hfirst reply)

/-- What always holds of a script's value holds of it whatever the replies are. -/
theorem Always.answeredFrom {kind : α → Prop} {script : Script α} (halways : script.Always kind)
    (replies : Replies) (position : Nat) : kind (script.answeredFrom replies position).1 := by
  induction script generalizing position with
  | done => exact halways
  | ask call _ ih => exact ih _ (halways (replies position call)) (position + 1)

end Script

namespace Tuner

/-! ### The two parts of a dispatch -/

section Dispatch

variable {arithmetic : FloatArithmetic} {tuner : Tuner} {request : Request}
  {input output : Bytes}

/-- The first part of a dispatch: what the call settles on, and the workspace by then. -/
def settling (arithmetic : FloatArithmetic) (tuner : Tuner) (request : Request)
    (input output : Bytes) : Script (Logged AlgorithmId × Workspace) :=
  let settled := settle request.collective (tuner.selected request)
  match tuner.decomposition? arithmetic request input with
  | some attempt => (attempt.run.run ⟨tuner.arena, output⟩).bind fun (status, workspace) =>
      .done (settled (some status), workspace)
  | none => .done (settled none, ⟨tuner.arena, output⟩)

/-- The second part of a dispatch. The events before it come first. -/
def finishing (tuner : Tuner) (request : Request) (input : Bytes) (events : List Event)
    (settled : Logged AlgorithmId) (workspace : Workspace) : Script Outcome :=
  let conclude (reply : Reply) : Outcome :=
    concluded tuner request settled.value (events ++ settled.events) workspace.arena reply
  if settled.value = defaultAlgorithm then
    .ask ⟨request.primitive, input, workspace.output⟩ fun reply => .done (conclude reply)
  else .done (conclude ⟨.ok (), workspace.output⟩)

/-- A dispatch settles on an algorithm and finishes with it. -/
theorem dispatch_eq_settling (arithmetic : FloatArithmetic) (tuner : Tuner) (request : Request)
    (input output : Bytes) :
    tuner.dispatch arithmetic request input output =
      (tuner.settling arithmetic request input output).bind fun (settled, workspace) =>
        tuner.finishing request input
          ((tuner.select request.collective request.messageBytes).events ++
            (resolve request.collective (tuner.selected request)).events) settled workspace := by
  unfold dispatch settling decomposition? selected
  dsimp only
  rw [← value_resolve]
  cases (resolve request.collective
      (tuner.select request.collective request.messageBytes).value).value.bind
    (request.decomposition? arithmetic tuner.me tuner.configuration.minScatterChunk input) with
  | none => rfl
  | some attempt =>
    change Program.bind _ _ = Program.bind (Program.bind _ _) _
    rw [Program.bind_assoc]
    rfl

/-! ### What a call may change -/

/-- Finishing a call leaves the setup as it is. -/
theorem always_finishing (tuner : Tuner) (request : Request) (input : Bytes) (events : List Event)
    (settled : Logged AlgorithmId) (workspace : Workspace) :
    (tuner.finishing request input events settled workspace).Always
      fun outcome => tuner.SameSetup outcome.tuner := by
  unfold finishing
  dsimp only
  split
  · exact fun reply => sameSetup_concluded _ _ _ reply
  · exact sameSetup_concluded _ _ _ _

/-- A call leaves everything but scratch space and the recorder as it was, whatever its primitive
calls come back with. -/
theorem always_perform (arithmetic : FloatArithmetic) (tuner : Tuner) (request : Request)
    (input output : Bytes) :
    (tuner.perform arithmetic request input output).Always
      fun outcome => tuner.SameSetup outcome.tuner := by
  by_cases hroot : ∀ root ∈ request.root?, root < tuner.me.size
  · rw [perform_of_root hroot, dispatch_eq_settling]
    refine .bind (.bind (Script.always_true _) fun (settled, workspace) _ => ?_)
      fun outcome hsame => hsame
    exact always_finishing _ _ _ _ settled workspace
  · obtain ⟨status, hperform⟩ := @perform_of_not_root arithmetic request tuner input output hroot
    rw [hperform]
    exact ⟨rfl, rfl, rfl, rfl⟩

/-- Performing a request leaves the setup as it is. -/
theorem sameSetup_performed (arithmetic : FloatArithmetic) (replies : Replies) (tuner : Tuner)
    (request : Request) (input output : Bytes) :
    tuner.SameSetup (performed arithmetic replies tuner request input output).1.tuner :=
  (always_perform arithmetic tuner request input output).answeredFrom replies 0

end Dispatch

/-! ### What all ranks settle on -/

section Group

variable {n : Nat} {arithmetic : FloatArithmetic} {refusals : Refusals n} {request : Request}
  {inputs outputs : Fin n → Bytes} {messages integers : Nat} {tuners : Fin n → Tuner}

end Group

end Tuner

end CollectiveTuner
