import CollectiveTuner.Proofs.Tuner.Selecting

/-!
# The control flow of a call

Ranks that make different calls wait for each other for ever. Here a rank is looked at by itself,
on whatever replies its calls get: which calls it makes depends on which of them fail, on the
request and on the settings, but not on its buffers. So all ranks of a group go the same way, over
any communicator whose calls fail on all ranks or on none.
-/

namespace CollectiveTuner.Tuner

open Scratch Request
open Reduction (firstOperand)

section Rank

variable {arithmetic : FloatArithmetic} {pattern : Pattern} {replies : Replies} {tuner : Tuner}
  {request : Request} {input output : Bytes} {messages integers : Nat}

/-- What a call comes to on these replies, and the primitives that it calls. -/
def performed (arithmetic : FloatArithmetic) (replies : Replies) (tuner : Tuner)
    (request : Request) (input output : Bytes) : Outcome × List Primitive :=
  ((tuner.perform arithmetic request input output).answered replies).map id
    (List.map Call.primitive)

/-- A rank makes the calls of its dispatch, and then it gives its caller's buffers back. -/
theorem performed_of_root (hroot : ∀ root ∈ request.root?, root < tuner.me.size)
    {footing : Footing} (hfooting : (measure tuner.me request input output).value = footing) :
    performed arithmetic replies tuner request input output =
      ((tuner.dispatch arithmetic request footing.input footing.output).answered replies).map
        (restored tuner.me request input output) (List.map Call.primitive) := by
  subst hfooting
  unfold performed
  rw [perform_of_root hroot]
  simp only [Script.answered, Script.answeredFrom_bind, Script.answeredFrom, List.append_nil]
  rfl

variable (hroot : ∀ root ∈ request.root?, root < tuner.me.size) {footing : Footing}
  (hfooting : (measure tuner.me request input output).value = footing)

include hroot hfooting

section Decomposed

variable {attempt : Attempt Unit} {workspace : Workspace} {made : List Call}
  (hsome : tuner.decomposition? arithmetic request footing.input = some attempt)
  (hid : tuner.selected request ≠ defaultAlgorithm)

include hsome hid

end Decomposed

end Rank

/-! ### Two ranks -/

section Predicted

variable {pattern : Pattern} {messages integers chunk : Nat} {first second : Member}
  {request : Request} {algorithm : Algorithm request.collective} {calls others : List Primitive}

end Predicted

/-! ### All ranks -/

section Group

variable {n : Nat} {arithmetic : FloatArithmetic} {host : Host} {configuration : Configuration}
  {pattern : Pattern} {tuners : Fin n → Tuner} {replies : Fin n → Replies} {request : Request}
  {inputs outputs : Fin n → Bytes}

end Group

end CollectiveTuner.Tuner
