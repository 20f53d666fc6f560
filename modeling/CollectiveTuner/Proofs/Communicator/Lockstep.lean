import CollectiveTuner.Communicator.Monitor
import CollectiveTuner.Proofs.Communicator.Together

/-!
# Scripts in lockstep

Ranks that work on the same request make their calls at the same positions of their scripts.
Each call is then carried out by all ranks together, or refused on all of them before it is
sent. Scripts in lockstep settle.
-/

namespace CollectiveTuner.Native

open Transport

variable {n : Nat} {α β : Type}

/-- The calls of a group that are refused, by their position, and the errors that the ranks get
instead. -/
abbrev Refusals (n : Nat) := Nat → Option (Fin n → Error)

/-- The calls of one rank that are refused. -/
def Refusals.on (refusals : Refusals n) (me : Fin n) : Refusal :=
  fun position _ => (refusals position).map fun errors => errors me

/-- From a position on, all ranks make their calls together, end at the position `stop`, and end
with these values. -/
inductive Lockstep (arithmetic : FloatArithmetic) (refusals : Refusals n) :
    Nat → (Fin n → Script α) → Nat → (Fin n → α) → Prop
  | done (position : Nat) (values : Fin n → α) :
      Lockstep arithmetic refusals position (fun me => .done (values me)) position values
  | refused {position stop : Nat} {calls : Fin n → Call} {next : Fin n → Reply → Script α}
      {errors : Fin n → Error} {values : Fin n → α} (hrefused : refusals position = some errors)
      (hrest : Lockstep arithmetic refusals (position + 1)
        (fun me => next me { status := .error (errors me), output := (calls me).output }) stop
        values) :
      Lockstep arithmetic refusals position (fun me => .ask (calls me) (next me)) stop values
  | answered {position stop : Nat} {calls : Fin n → Call} {next : Fin n → Reply → Script α}
      {replies : Fin n → Reply} {values : Fin n → α} (hanswered : refusals position = none)
      (hsettles : Settles (fun me => answer arithmetic me (calls me)) replies)
      (hrest : Lockstep arithmetic refusals (position + 1) (fun me => next me (replies me)) stop
        values) :
      Lockstep arithmetic refusals position (fun me => .ask (calls me) (next me)) stop values

namespace Lockstep

variable {arithmetic : FloatArithmetic} {refusals : Refusals n} {position middle stop : Nat}

/-- Scripts in lockstep can be put one after the other. -/
theorem bind {scripts : Fin n → Script α} {values : Fin n → α} {next : Fin n → α → Script β}
    {results : Fin n → β} (hfirst : Lockstep arithmetic refusals position scripts middle values)
    (hnext : Lockstep arithmetic refusals middle (fun me => next me (values me)) stop results) :
    Lockstep arithmetic refusals position (fun me => (scripts me).bind (next me)) stop results := by
  induction hfirst with
  | done => exact hnext
  | refused hrefused _ ih => exact .refused hrefused (ih hnext)
  | answered hanswered hsettles _ ih => exact .answered hanswered hsettles (ih hnext)

/-- A script in lockstep has not gone behind its last position. -/
theorem position_le {scripts : Fin n → Script α} {values : Fin n → α}
    (hlockstep : Lockstep arithmetic refusals position scripts stop values) : position ≤ stop := by
  induction hlockstep with
  | done => exact le_rfl
  | refused _ _ ih => omega
  | answered _ _ _ ih => omega

/-- Scripts in lockstep of which no call is refused settle. -/
theorem settles {scripts : Fin n → Script α} {values : Fin n → α}
    (hlockstep : Lockstep arithmetic refusals position scripts stop values)
    (hnone : ∀ position, refusals position = none) :
    Settles (fun me => run arithmetic me (scripts me)) values := by
  induction hlockstep with
  | done => exact settles_done _
  | refused hrefused =>
    rw [hnone] at hrefused
    cases hrefused
  | answered _ hsettles _ ih => exact hsettles.bind ih

/-- **Scripts in lockstep settle when some of their calls are refused.** All ranks make the same
number of calls. -/
theorem settles_monitored {scripts : Fin n → Script α} {values : Fin n → α}
    (hlockstep : Lockstep arithmetic refusals position scripts stop values) :
    ∃ calls : Fin n → List Call,
      Settles (fun me => run arithmetic me ((scripts me).monitoredFrom (refusals.on me) position))
        (fun me => (values me, calls me)) ∧
      ∀ me, position + (calls me).length = stop := by
  induction hlockstep with
  | done position values => exact ⟨fun _ => [], settles_done _, fun _ => rfl⟩
  | @refused position stop calls next errors values hrefused _ ih =>
    obtain ⟨rest, hsettles, hlength⟩ := ih
    refine ⟨fun me => calls me :: rest me, ?_, fun me => ?_⟩
    · have hcourse (me : Fin n) : Script.monitoredFrom (refusals.on me) position
          (.ask (calls me) (next me)) =
            (Script.monitoredFrom (refusals.on me) (position + 1)
              (next me ⟨.error (errors me), (calls me).output⟩)).bind
                fun result => .done (result.1, calls me :: result.2) := by
        simp only [Script.monitoredFrom, Refusals.on, hrefused, Option.map_some]
      simp only [hcourse, run, Program.interpret_bind]
      exact hsettles.bind (settles_done _)
    · rw [List.length_cons, ← hlength me]
      omega
  | @answered position stop calls next replies values hanswered hreplies _ ih =>
    obtain ⟨rest, hsettles, hlength⟩ := ih
    refine ⟨fun me => calls me :: rest me, ?_, fun me => ?_⟩
    · have hcourse (me : Fin n) : Script.monitoredFrom (refusals.on me) position
          (.ask (calls me) (next me)) = .ask (calls me) fun reply =>
            (Script.monitoredFrom (refusals.on me) (position + 1) (next me reply)).bind
              fun result => .done (result.1, calls me :: result.2) := by
        simp only [Script.monitoredFrom, Refusals.on, hanswered, Option.map_none]
      simp only [hcourse, run, Program.interpret, Program.interpret_bind]
      exact hreplies.bind (hsettles.bind (settles_done _))
    · rw [List.length_cons, ← hlength me]
      omega

end Lockstep

end CollectiveTuner.Native
