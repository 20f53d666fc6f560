import CollectiveTuner.Transport.Execution
import Mathlib

/-!
# Histories of a group's run

An action is a channel operation together with its answer. A run of a group gives each rank
the history of its actions, and a rank's program and history determine how far the rank has
come. `Runs` is a run under any schedule: the ranks' histories are all that is kept of it.
-/

namespace CollectiveTuner

namespace Program

variable {Request : Type} {Answer : Request → Type} {α β : Type}

/-- `program.Follows history rest`: answered as the history says, the program goes on as
`rest`. -/
inductive Follows : Program Request Answer α → List ((request : Request) × Answer request) →
    Program Request Answer α → Prop
  | nil (program : Program Request Answer α) : Follows program [] program
  | cons {request : Request} {next : Answer request → Program Request Answer α}
      {answer : Answer request} {history : List ((request : Request) × Answer request)}
      {rest : Program Request Answer α} (hrest : Follows (next answer) history rest) :
      Follows (ask request next) (⟨request, answer⟩ :: history) rest

namespace Follows

variable {program middle rest rest' : Program Request Answer α}
  {history later : List ((request : Request) × Answer request)}

/-- A program that nothing has happened to is unchanged. -/
theorem eq_of_nil (hfollows : program.Follows [] rest) : program = rest := by
  cases hfollows
  rfl

/-- The first action of a history answers the program's request. -/
theorem of_cons {action : (request : Request) × Answer request}
    (hfollows : program.Follows (action :: history) rest) :
    ∃ next, program = ask action.1 next ∧ (next action.2).Follows history rest := by
  cases hfollows with
  | cons hrest => exact ⟨_, rfl, hrest⟩

/-- Following one history and then another is following their concatenation. -/
theorem trans (hfirst : program.Follows history middle) (hsecond : middle.Follows later rest) :
    program.Follows (history ++ later) rest := by
  induction hfirst with
  | nil => exact hsecond
  | cons _ ih => exact .cons (ih hsecond)

/-- A program that follows a history passes through every cut of it. -/
theorem of_append (hfollows : program.Follows (history ++ later) rest) :
    ∃ middle, program.Follows history middle ∧ middle.Follows later rest := by
  induction history generalizing program with
  | nil => exact ⟨program, .nil program, hfollows⟩
  | cons action history ih =>
    obtain ⟨next, rfl, hnext⟩ := of_cons hfollows
    obtain ⟨middle, hmiddle, hlater⟩ := ih hnext
    exact ⟨middle, .cons hmiddle, hlater⟩

/-- What a program does first it also does when more work comes after it. -/
theorem bind (hfollows : program.Follows history rest)
    (next : α → Program Request Answer β) :
    (program.bind next).Follows history (rest.bind next) := by
  induction hfollows with
  | nil => exact .nil _
  | cons _ ih => exact .cons ih

/-- A program that ends and its successor follow their histories one after the other. -/
theorem bind_done {value : α} {next : α → Program Request Answer β}
    {result : Program Request Answer β} (hfirst : program.Follows history (done value))
    (hnext : (next value).Follows later result) :
    (program.bind next).Follows (history ++ later) result :=
  (hfirst.bind next).trans hnext

end Follows

end Program

namespace Transport

/-- A channel operation together with its answer. -/
abbrev Action (n : Nat) := (op : ChannelOp n) × op.Answer

/-- What one rank has done, oldest action first. -/
abbrev History (n : Nat) := List (Action n)

/-- An updated entry is the new one. -/
theorem get_set_self {n : Nat} {α : Type} (entries : Vector α n) (i : Fin n) (entry : α) :
    (entries.set i entry i.isLt).get i = entry := by
  simp [Vector.get_eq_getElem]

/-- The other entries are as before the update. -/
theorem get_set_of_ne {n : Nat} {α : Type} (entries : Vector α n) {i j : Fin n} (entry : α)
    (hne : j ≠ i) : (entries.set i entry i.isLt).get j = entries.get j := by
  have hval : (i : Nat) ≠ j := fun h => hne (Fin.ext h.symm)
  simp [Vector.get_eq_getElem, hval]

namespace GroupState

variable {n : Nat} {α : Type}

/-- A group about to start, with all endpoints there and nothing under way. -/
def opening (programs : Fin n → RankProgram n α) : GroupState n α :=
  { network := Network.idle n, processes := Vector.ofFn programs }

/-- Rank `me` takes a step, which is the given action. -/
def Acts (before : GroupState n α) (me : Fin n) (action : Action n) (after : GroupState n α) :
    Prop :=
  ∃ next network, before.processes.get me = .ask action.1 next ∧
    before.network.serve me action.1 = some (action.2, network) ∧
    after = { network, processes := before.processes.set me (next action.2) me.isLt }

/-- A run under some schedule, with the history of every rank. -/
inductive Runs : GroupState n α → (Fin n → History n) → GroupState n α → Prop
  | rest (state : GroupState n α) : Runs state (fun _ => []) state
  | act {before between after : GroupState n α} {me : Fin n} {action : Action n}
      {histories : Fin n → History n} (hacts : before.Acts me action between)
      (hruns : Runs between histories after) :
      Runs before (Function.update histories me (action :: histories me)) after

/-- The group comes from one state to another under some schedule. -/
def Reaches (before after : GroupState n α) : Prop :=
  ∃ histories, before.Runs histories after

/-- No rank can take a step. -/
def AtRest (state : GroupState n α) : Prop :=
  ∀ me action after, ¬ state.Acts me action after

/-- Every rank has ended. -/
def Finished (state : GroupState n α) : Prop :=
  ∀ me, ∃ value, state.processes.get me = .done value

/-- A step of the group is an action of one of its ranks. -/
theorem step?_eq_some_iff {before after : GroupState n α} {me : Fin n} :
    before.step? me = some after ↔ ∃ action, before.Acts me action after := by
  constructor
  · intro hstep
    unfold step? at hstep
    split at hstep
    · cases hstep
    · next op next hprocess =>
      obtain ⟨⟨answer, network⟩, hserve, rfl⟩ := Option.map_eq_some_iff.mp hstep
      exact ⟨⟨op, answer⟩, next, network, hprocess, hserve, rfl⟩
  · rintro ⟨⟨op, answer⟩, next, network, hprocess, hserve, rfl⟩
    simp [step?, hprocess, hserve]

/-- A group at rest is one in which no rank has a step to take. -/
theorem atRest_iff {state : GroupState n α} : state.AtRest ↔ ∀ me, state.step? me = none := by
  constructor
  · intro hrest me
    cases hstep : state.step? me with
    | none => rfl
    | some after =>
      obtain ⟨action, hacts⟩ := step?_eq_some_iff.mp hstep
      exact absurd hacts (hrest me action after)
  · intro hrest me action after hacts
    have hstep := step?_eq_some_iff.mpr ⟨action, hacts⟩
    rw [hrest me] at hstep
    cases hstep

/-- When all ranks have ended, the group is at rest. -/
theorem Finished.atRest {state : GroupState n α} (hfinished : state.Finished) : state.AtRest := by
  rintro me action after ⟨next, network, hprocess, _⟩
  obtain ⟨value, hvalue⟩ := hfinished me
  rw [hvalue] at hprocess
  cases hprocess

/-- The action of a rank depends on nothing but the state. -/
theorem Acts.unique {before after after' : GroupState n α} {me : Fin n} {action action' : Action n}
    (hfirst : before.Acts me action after) (hsecond : before.Acts me action' after') :
    action = action' ∧ after = after' := by
  obtain ⟨op, answer⟩ := action
  obtain ⟨op', answer'⟩ := action'
  obtain ⟨next, network, hprocess, hserve, rfl⟩ := hfirst
  obtain ⟨next', network', hprocess', hserve', rfl⟩ := hsecond
  rw [hprocess] at hprocess'
  cases hprocess'
  rw [hserve] at hserve'
  cases hserve'
  exact ⟨rfl, rfl⟩

/-- One run after another is a run, and the histories are put together rank by rank. -/
theorem Runs.trans {before between after : GroupState n α} {first second : Fin n → History n}
    (hfirst : before.Runs first between) (hsecond : between.Runs second after) :
    before.Runs (fun rank => first rank ++ second rank) after := by
  induction hfirst with
  | rest => simpa using hsecond
  | @act _ _ _ me action histories hacts _ ih =>
    convert Runs.act hacts (ih hsecond) using 1
    funext rank
    by_cases hrank : rank = me
    · subst hrank
      simp
    · simp [Function.update_of_ne hrank]

/-- Every state reaches itself. -/
theorem Reaches.refl (state : GroupState n α) : state.Reaches state :=
  ⟨_, .rest state⟩

/-- What is reached from a state that is reached is reached. -/
theorem Reaches.trans {before between after : GroupState n α} (hfirst : before.Reaches between)
    (hsecond : between.Reaches after) : before.Reaches after := by
  obtain ⟨_, hfirst⟩ := hfirst
  obtain ⟨_, hsecond⟩ := hsecond
  exact ⟨_, hfirst.trans hsecond⟩

/-- An action of a rank reaches the next state. -/
theorem Acts.reaches {before after : GroupState n α} {me : Fin n} {action : Action n}
    (hacts : before.Acts me action after) : before.Reaches after :=
  ⟨_, .act hacts (.rest after)⟩

end GroupState

end Transport

end CollectiveTuner
