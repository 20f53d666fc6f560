import CollectiveTuner.Communicator.Call

/-!
# Watching and refusing calls

`Script.monitored` notes every call that a script makes and refuses some of them. A refused
call fails at once: it reaches nobody and writes nothing.
-/

namespace CollectiveTuner

/-- Decides, from the position of a call in its script and the call itself, whether it is
refused and with which error. -/
abbrev Refusal := Nat → Call → Option Error

namespace Script

/-- Runs a script whose first call has the number `position`. The value comes with all calls
made, in order, the refused ones included. -/
def monitoredFrom {α : Type} (refusal : Refusal) (position : Nat) :
    Script α → Script (α × List Call)
  | .done value => .done (value, [])
  | .ask call next =>
    match refusal position call with
    | some error =>
      (monitoredFrom refusal (position + 1)
        (next { status := .error error, output := call.output })).bind
          fun (value, calls) => .done (value, call :: calls)
    | none =>
      .ask call fun reply =>
        (monitoredFrom refusal (position + 1) (next reply)).bind
          fun (value, calls) => .done (value, call :: calls)

/-- Runs a script, refuses some calls and notes them all. -/
def monitored {α : Type} (refusal : Refusal) (script : Script α) : Script (α × List Call) :=
  monitoredFrom refusal 0 script

end Script

/-- Refuses no call. -/
def Refusal.never : Refusal := fun _ _ => none

/-- Refuses, on rank `rank` and for this reason, every call of a primitive with one of these
names. -/
def Refusal.byName (rank : Nat) (names : List String) (reason : String) : Refusal :=
  fun _ call =>
    if call.primitive.name ∈ names then
      some (.collectiveFailed call.primitive.name rank reason)
    else none

end CollectiveTuner
