import CollectiveTuner.Transport.Network

/-!
# Running a group

A group runs by steps: one rank gets the answer to its next request. `Steps` allows any rank
that need not wait to take the next step, and `run` is the schedule that always picks the
first such rank. A run ends because every program is a finite tree.
-/

namespace CollectiveTuner.Transport

/-- A group of `n` ranks in the middle of a run. -/
structure GroupState (n : Nat) (α : Type) where
  /-- The messages under way. -/
  network : Network n
  /-- What each rank still has to do. -/
  processes : Vector (RankProgram n α) n

namespace GroupState

variable {n : Nat} {α : Type}

/-- The state after one step of rank `me`, unless the rank is done or has to wait. -/
def step? (state : GroupState n α) (me : Fin n) : Option (GroupState n α) :=
  match state.processes.get me with
  | .done _ => none
  | .ask op next =>
    (state.network.serve me op).map fun (answer, network) =>
      { network, processes := state.processes.set me (next answer) me.isLt }

/-- One rank takes a step. -/
def Steps (before after : GroupState n α) : Prop :=
  ∃ me, before.step? me = some after

/-- The step of the first rank that can take one. -/
def advance? (state : GroupState n α) : Option (GroupState n α) :=
  (List.finRange n).findSome? state.step?

/-- What the group advances to is a step. -/
theorem steps_of_advance? {before after : GroupState n α}
    (hadvance : before.advance? = some after) : before.Steps after := by
  obtain ⟨_, _, _, _, hstep, _⟩ := List.findSome?_eq_some_iff.mp hadvance
  exact ⟨_, hstep⟩

/-- Exactly one program of the list is replaced by one that it may go on as. -/
inductive OneChild : List (RankProgram n α) → List (RankProgram n α) → Prop
  | head {after before : RankProgram n α} (rest : List (RankProgram n α))
      (hchild : after.Child before) : OneChild (after :: rest) (before :: rest)
  | tail {after before : List (RankProgram n α)} (first : RankProgram n α)
      (hrest : OneChild after before) : OneChild (first :: after) (first :: before)

/-- No sequence of single moves among processes goes on forever. -/
theorem acc_oneChild (processes : List (RankProgram n α)) : Acc OneChild processes := by
  induction processes with
  | nil => exact ⟨_, fun _ hchild => nomatch hchild⟩
  | cons first rest ih =>
    induction Program.acc_child first generalizing rest with
    | intro first _ ihFirst =>
      induction ih with
      | intro rest hrest ihRest =>
        refine ⟨_, fun _ hchild => ?_⟩
        cases hchild with
        | head _ hchild => exact ihFirst _ hchild rest ⟨_, hrest⟩
        | tail _ hchild => exact ihRest _ hchild

/-- Moving one process on is a single move among them. -/
theorem oneChild_set {processes : List (RankProgram n α)} {i : Nat} (hi : i < processes.length)
    {after : RankProgram n α} (hchild : after.Child processes[i]) :
    OneChild (processes.set i after) processes := by
  induction processes generalizing i with
  | nil => simp at hi
  | cons first rest ih =>
    cases i with
    | zero => exact .head rest hchild
    | succ i => exact .tail first (ih (by simpa using hi) hchild)

/-- The programs shrink: a step replaces one program by a continuation of it. -/
def Shrinks (after before : GroupState n α) : Prop :=
  OneChild after.processes.toList before.processes.toList

/-- No sequence of shrinking groups goes on forever. -/
theorem shrinks_wellFounded : WellFounded (@Shrinks n α) :=
  InvImage.wf (fun state : GroupState n α => state.processes.toList) ⟨acc_oneChild⟩

/-- Every step shrinks the group. -/
theorem shrinks_of_steps {before after : GroupState n α} (hsteps : before.Steps after) :
    after.Shrinks before := by
  obtain ⟨me, hstep⟩ := hsteps
  unfold step? at hstep
  split at hstep
  · simp at hstep
  · next op next hprocess =>
    obtain ⟨⟨answer, network⟩, _, rfl⟩ := Option.map_eq_some_iff.mp hstep
    have hchild : (next answer).Child (before.processes.get me) := by
      rw [hprocess]
      exact .answered op next answer
    simp only [Shrinks, Vector.toList_set]
    exact oneChild_set (by simp) (by simpa [Vector.get] using hchild)

/-- Runs the group until no rank can take a step. -/
def run (state : GroupState n α) : GroupState n α :=
  match hadvance : state.advance? with
  | none => state
  | some next =>
    have : next.Shrinks state := shrinks_of_steps (steps_of_advance? hadvance)
    run next
termination_by shrinks_wellFounded.wrap state
decreasing_by exact this

/-- The value that each rank ended with. A rank without one waits forever. -/
def results (state : GroupState n α) : Vector (Option α) n :=
  state.processes.map fun process =>
    match process with
    | .done value => some value
    | .ask _ _ => none

end GroupState

/-- Runs one process per rank from an idle network. -/
def run {n : Nat} {α : Type} (processes : Vector (RankProgram n α) n) : Vector (Option α) n :=
  (GroupState.run { network := Network.idle n, processes }).results

end CollectiveTuner.Transport
