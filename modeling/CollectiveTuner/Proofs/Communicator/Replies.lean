import CollectiveTuner.Communicator.Call
import Mathlib

/-!
# One rank and the replies it gets

What a rank does depends on nothing but the replies to its calls. `answeredFrom` runs a script
on given replies and notes its calls. `Answers` says of replies that the calls succeed at the
positions of a pattern, whatever else they bring, and `reached` lists the calls that a rank
makes when it works through a plan until one fails.
-/

namespace CollectiveTuner

/-- The replies to the calls of a rank, by the number of a call. -/
abbrev Replies := Nat → Call → Reply

/-- Says by the number of a call whether the call succeeds. -/
abbrev Pattern := Nat → Bool

namespace Script

variable {α β : Type}

/-- Runs a script whose first call has the number `position` on the replies. The value comes
with all calls made, in order. -/
def answeredFrom (replies : Replies) (position : Nat) : Script α → α × List Call
  | .done value => (value, [])
  | .ask call next =>
    let (value, calls) := answeredFrom replies (position + 1) (next (replies position call))
    (value, call :: calls)

/-- Runs a script on the replies. -/
def answered (replies : Replies) (script : Script α) : α × List Call :=
  answeredFrom replies 0 script

/-- The calls of two scripts that follow one another are numbered through. -/
theorem answeredFrom_bind (replies : Replies) (position : Nat) (script : Script α)
    (next : α → Script β) :
    answeredFrom replies position (script.bind next) =
      let first := answeredFrom replies position script
      let second := answeredFrom replies (position + first.2.length) (next first.1)
      (second.1, first.2 ++ second.2) := by
  induction script generalizing position with
  | done => rfl
  | ask call rest ih =>
    simp only [Program.bind, answeredFrom, ih, List.length_cons, List.cons_append]
    rw [Nat.add_right_comm, Nat.add_assoc]

end Script

/-- The calls succeed where the pattern says so, and no buffer changes its length. -/
structure Answers (pattern : Pattern) (replies : Replies) : Prop where
  status : ∀ position call, (replies position call).status.isOk = pattern position
  length : ∀ position call, (replies position call).output.length = call.output.length

section Status

variable {pattern : Pattern} {replies : Replies} {position : Nat}

/-- A call that passes in the pattern is answered with success. -/
theorem Answers.status_eq_ok (hanswers : Answers pattern replies) (call : Call)
    (hpasses : pattern position = true) : (replies position call).status = .ok () := by
  have hstatus := hanswers.status position call
  rw [hpasses] at hstatus
  cases hreply : (replies position call).status with
  | ok => rfl
  | error error =>
    rw [hreply] at hstatus
    cases hstatus

/-- A call that fails in the pattern is answered with some error. -/
theorem Answers.status_eq_error (hanswers : Answers pattern replies) (call : Call)
    (hfails : pattern position = false) :
    ∃ error, (replies position call).status = .error error := by
  have hstatus := hanswers.status position call
  rw [hfails] at hstatus
  cases hreply : (replies position call).status with
  | ok =>
    rw [hreply] at hstatus
    cases hstatus
  | error error => exact ⟨error, rfl⟩

end Status

namespace Pattern

/-- Replies that follow the pattern and bring nothing. -/
def echo (pattern : Pattern) : Replies := fun position call =>
  { status :=
      if pattern position then .ok ()
      else .error (.transport "refused" none)
    output := call.output }

/-- The primitives of a plan that a rank calls: those up to the first one that fails. -/
def reached (pattern : Pattern) (position : Nat) : List Primitive → List Primitive
  | [] => []
  | primitive :: rest =>
    primitive :: if pattern position = true then reached pattern (position + 1) rest else []

/-- All calls of a plan succeed. -/
def Passes (pattern : Pattern) (position : Nat) : List Primitive → Prop
  | [] => True
  | _ :: rest => pattern position = true ∧ Passes pattern (position + 1) rest

end Pattern

end CollectiveTuner
