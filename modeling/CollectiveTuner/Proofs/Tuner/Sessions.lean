import CollectiveTuner.FileTree
import CollectiveTuner.Proofs.Tuner.Groups
import CollectiveTuner.Proofs.Tuner.Machine

/-!
# Sessions of a group

In a session all ranks work through the same commands, each at its own pace: a rank may be in a
later call than another, and its messages wait in the channels meanwhile. `Step` says what can
happen next. A rank that cannot measure a call, or has no memory for a stand-in, stops in it and
leaves the group. While every call can be served, a session is a run of what is left of the commands
on each rank, so it never gets stuck, and between two commands no message is left under way.
-/

namespace CollectiveTuner.Session

open Transport Tuner
open Reduction (firstOperand)

variable {n : Nat} {host : Host} {arithmetic : FloatArithmetic}

/-- What all ranks do next. The buffers that a rank passes to a call may depend on what its
earlier calls came back with. -/
inductive Command (n : Nat)
  | call (request : Request) (input output : Fin n → List Outcome → Bytes)
  | select (op : Collective) (id : AlgorithmId)

/-- How far a rank has come. -/
structure Progress (n : Nat) where
  /-- The number of commands that the rank has finished. -/
  finished : Nat
  /-- The tuner of the rank. -/
  tuner : Tuner
  /-- What the calls of the rank came back with. -/
  past : List Outcome
  /-- What is left of the call that the rank is in. A rank that has stopped stays in its call,
  without an outcome. -/
  current : Option (RankProgram n (Option Outcome))

/-- A session under way. -/
structure State (n : Nat) where
  /-- The messages under way. -/
  network : Network n
  /-- How far each rank has come. -/
  ranks : Fin n → Progress n

/-- The state before the first command. -/
def opening (tuners : Fin n → Tuner) : State n where
  network := Network.idle n
  ranks me := { finished := 0, tuner := tuners me, past := [], current := none }

/-- The state after one rank has moved on. -/
def State.move (state : State n) (me : Fin n) (progress : Progress n) : State n :=
  { state with ranks := Function.update state.ranks me progress }

/-- A rank that has moved is where it moved to. -/
@[simp] theorem ranks_move_self (state : State n) (me : Fin n) (progress : Progress n) :
    (state.move me progress).ranks me = progress :=
  Function.update_self _ _ _

/-- The other ranks stay where they are. -/
theorem ranks_move_of_ne (state : State n) {me rank : Fin n} (progress : Progress n)
    (hrank : rank ≠ me) : (state.move me progress).ranks rank = state.ranks rank :=
  Function.update_of_ne hrank _ _

/-- The tuner after an algorithm has been chosen. One that is not registered is refused. -/
def choose (tuner : Tuner) (op : Collective) (id : AlgorithmId) : Tuner :=
  match tuner.setAlgorithm op id with
  | .ok after => after
  | .error _ => tuner

/-- What one rank does for a call. -/
def perform (host : Host) (arithmetic : FloatArithmetic) (me : Fin n) (tuner : Tuner)
    (past : List Outcome) (request : Request) (input output : Fin n → List Outcome → Bytes) :
    RankProgram n (Option Outcome) :=
  Native.run arithmetic me
    (tuner.performOn host arithmetic request (input me past) (output me past))

/-- What can happen next: a rank begins its next call, acts on a channel in its call, comes back
from its call, chooses an algorithm, or leaves the group because it has stopped. -/
inductive Step (host : Host) (arithmetic : FloatArithmetic) (commands : List (Command n)) :
    State n → State n → Prop
  | begins {state : State n} {me : Fin n} {request : Request}
      {input output : Fin n → List Outcome → Bytes} (hidle : (state.ranks me).current = none)
      (hcommand : commands[(state.ranks me).finished]? = some (.call request input output)) :
      Step host arithmetic commands state (state.move me { state.ranks me with
        current := some (perform host arithmetic me (state.ranks me).tuner (state.ranks me).past
          request input output) })
  | acts {state : State n} {me : Fin n} {op : ChannelOp n}
      {next : op.Answer → RankProgram n (Option Outcome)} {answer : op.Answer} {network : Network n}
      (hcurrent : (state.ranks me).current = some (.ask op next))
      (hserve : state.network.serve me op = some (answer, network)) :
      Step host arithmetic commands state
        ({ state with network }.move me { state.ranks me with current := some (next answer) })
  | returns {state : State n} {me : Fin n} {outcome : Outcome}
      (hcurrent : (state.ranks me).current = some (.done (some outcome))) :
      Step host arithmetic commands state (state.move me
        { finished := (state.ranks me).finished + 1
          tuner := outcome.tuner
          past := (state.ranks me).past ++ [outcome]
          current := none })
  | chooses {state : State n} {me : Fin n} {op : Collective} {id : AlgorithmId}
      (hidle : (state.ranks me).current = none)
      (hcommand : commands[(state.ranks me).finished]? = some (.select op id)) :
      Step host arithmetic commands state (state.move me { state.ranks me with
        finished := (state.ranks me).finished + 1
        tuner := choose (state.ranks me).tuner op id })
  | stops {state : State n} {me : Fin n}
      (hcurrent : (state.ranks me).current = some (.done none))
      (hpresent : state.network.isPresent me = true) :
      Step host arithmetic commands state { state with network := state.network.close me }

/-- Some schedule leads from one state to another. -/
def Reaches (host : Host) (arithmetic : FloatArithmetic) (commands : List (Command n)) :
    State n → State n → Prop :=
  Relation.ReflTransGen (Step host arithmetic commands)

/-- The rank has finished its first `count` commands and has not begun the next one. -/
def Progress.IsBetween (count : Nat) (progress : Progress n) : Prop :=
  progress.finished = count ∧ progress.current = none

/-- Goes on with the outcome of a call, if there is one. -/
def goOn {α : Type} (next : Outcome → RankProgram n (Option α)) :
    Option Outcome → RankProgram n (Option α)
  | none => .done none
  | some outcome => next outcome

/-- What a rank does for the rest of its commands. -/
def remaining (host : Host) (arithmetic : FloatArithmetic) (me : Fin n) :
    List (Command n) → Tuner → List Outcome → RankProgram n (Option (Tuner × List Outcome))
  | [], tuner, past => .done (some (tuner, past))
  | .call request input output :: rest, tuner, past =>
    (perform host arithmetic me tuner past request input output).bind <| goOn fun outcome =>
      remaining host arithmetic me rest outcome.tuner (past ++ [outcome])
  | .select op id :: rest, tuner, past =>
    remaining host arithmetic me rest (choose tuner op id) past

/-- What a rank has left to do. -/
def Progress.program (host : Host) (arithmetic : FloatArithmetic) (commands : List (Command n))
    (me : Fin n) (progress : Progress n) : RankProgram n (Option (Tuner × List Outcome)) :=
  match progress.current with
  | none =>
    remaining host arithmetic me (commands.drop progress.finished) progress.tuner progress.past
  | some program => program.bind <| goOn fun outcome =>
    remaining host arithmetic me (commands.drop (progress.finished + 1)) outcome.tuner
      (progress.past ++ [outcome])

/-- The group of what all ranks have left to do. -/
def State.group (host : Host) (arithmetic : FloatArithmetic) (commands : List (Command n))
    (state : State n) : GroupState n (Option (Tuner × List Outcome)) :=
  { network := state.network,
    processes := Vector.ofFn fun me => (state.ranks me).program host arithmetic commands me }

section Group

variable {commands : List (Command n)} {state next : State n}

/-- In the group of a session, each rank runs what is left of its commands. -/
@[simp] theorem get_group (me : Fin n) : (state.group host arithmetic commands).processes.get me =
    (state.ranks me).program host arithmetic commands me := by
  simp [State.group]

/-- The next command is the first one of those that are left. -/
theorem drop_eq_cons {finished : Nat} {command : Command n}
    (hcommand : commands[finished]? = some command) :
    commands.drop finished = command :: commands.drop (finished + 1) := by
  obtain ⟨hlt, rfl⟩ := List.getElem?_eq_some_iff.mp hcommand
  exact List.drop_eq_getElem_cons hlt

/-- A rank that moves on without using a channel has the same left to do. -/
theorem group_move {me : Fin n} {progress : Progress n}
    (hprogram : progress.program host arithmetic commands me =
      (state.ranks me).program host arithmetic commands me) :
    (state.move me progress).group host arithmetic commands =
      state.group host arithmetic commands := by
  refine GroupState.ext_get rfl fun rank => ?_
  rw [get_group, get_group]
  by_cases hrank : rank = me
  · subst hrank
    rw [ranks_move_self, hprogram]
  · rw [ranks_move_of_ne state progress hrank]

/-- A step of a session in which no rank has stopped is a run of what is left, of one action or
none. -/
theorem Step.reaches (hstep : Step host arithmetic commands state next)
    (hgoes : ∀ me, (state.ranks me).current ≠ some (.done none)) :
    (state.group host arithmetic commands).Reaches (next.group host arithmetic commands) := by
  cases hstep with
  | begins hidle hcommand =>
    rw [group_move]
    · exact .refl _
    · simp only [Progress.program, hidle, drop_eq_cons hcommand, remaining]
  | @acts me op rest answer network hcurrent hserve =>
    let after (answer : op.Answer) : RankProgram n (Option (Tuner × List Outcome)) :=
      (rest answer).bind <| goOn fun outcome => remaining host arithmetic me
        (commands.drop ((state.ranks me).finished + 1)) outcome.tuner
        ((state.ranks me).past ++ [outcome])
    have hprocess : (state.group host arithmetic commands).processes.get me = .ask op after := by
      rw [get_group, Progress.program, hcurrent]
      rfl
    refine @GroupState.Acts.reaches n _ _ _ me ⟨op, answer⟩ ⟨after, network, hprocess, hserve, ?_⟩
    refine GroupState.ext_get rfl fun rank => ?_
    rw [get_group]
    by_cases hrank : rank = me
    · subst hrank
      rw [get_set_self, ranks_move_self]
      rfl
    · rw [get_set_of_ne _ _ hrank, get_group, ranks_move_of_ne _ _ hrank]
  | returns hcurrent =>
    rw [group_move]
    · exact .refl _
    · simp only [Progress.program, hcurrent, Program.bind, goOn]
  | chooses hidle hcommand =>
    rw [group_move]
    · exact .refl _
    · simp only [Progress.program, hidle, drop_eq_cons hcommand, remaining]
  | stops hcurrent => exact absurd hcurrent (hgoes _)

/-- A rank that has not begun the command after the first `count` ones. -/
def Progress.IsWithin (count : Nat) (progress : Progress n) : Prop :=
  progress.finished < count ∨ progress.IsBetween count

/-- A rank that still has one of the first commands to finish can move on among them. -/
theorem isWithin_of_move {count : Nat} {me : Fin n} {progress : Progress n}
    (hwithin : ∀ rank, ((state.move me progress).ranks rank).IsWithin count)
    (hme : (state.ranks me).finished < count) : ∀ rank, (state.ranks rank).IsWithin count := by
  intro rank
  by_cases hrank : rank = me
  · exact .inl (hrank ▸ hme)
  · rw [← ranks_move_of_ne state progress hrank]
    exact hwithin rank

/-- A rank in a call has not finished the command that it is in. -/
theorem lt_of_current {count finished : Nat} {progress : Progress n}
    (hwithin : progress.IsWithin count) (hfinished : progress.finished = finished)
    (hcurrent : progress.current ≠ none) : finished < count :=
  hfinished ▸ hwithin.resolve_right fun hbetween => hcurrent hbetween.2

/-- A rank that has finished one more command had not finished all of the first ones. -/
theorem lt_of_finished {count finished : Nat} {progress : Progress n}
    (hwithin : progress.IsWithin count) (hfinished : progress.finished = finished + 1) :
    finished < count := by
  rcases hwithin with hlt | ⟨heq, _⟩ <;> omega

/-- A step to a state in which no rank has gone beyond the first commands needs no others. -/
theorem Step.take {count : Nat} (hstep : Step host arithmetic commands state next)
    (hwithin : ∀ me, (next.ranks me).IsWithin count) :
    (∀ me, (state.ranks me).IsWithin count) ∧
      Step host arithmetic (commands.take count) state next := by
  cases hstep with
  | @begins me _ _ _ hidle hcommand =>
    have hme := hwithin me
    rw [ranks_move_self] at hme
    have hlt : (state.ranks me).finished < count := lt_of_current hme rfl (Option.some_ne_none _)
    exact ⟨isWithin_of_move hwithin hlt,
      .begins hidle ((List.getElem?_take_of_lt hlt).trans hcommand)⟩
  | @acts me _ _ _ network hcurrent hserve =>
    have hme := hwithin me
    rw [ranks_move_self] at hme
    have hlt : (state.ranks me).finished < count := lt_of_current hme rfl (Option.some_ne_none _)
    exact ⟨@isWithin_of_move n { state with network } _ _ _ hwithin hlt, .acts hcurrent hserve⟩
  | @returns me _ hcurrent =>
    have hme := hwithin me
    rw [ranks_move_self] at hme
    exact ⟨isWithin_of_move hwithin (lt_of_finished hme rfl), .returns hcurrent⟩
  | @chooses me _ _ hidle hcommand =>
    have hme := hwithin me
    rw [ranks_move_self] at hme
    have hlt : (state.ranks me).finished < count := lt_of_finished hme rfl
    exact ⟨isWithin_of_move hwithin hlt,
      .chooses hidle ((List.getElem?_take_of_lt hlt).trans hcommand)⟩
  | stops hcurrent hpresent => exact ⟨hwithin, .stops hcurrent hpresent⟩

/-- A state in which no rank has gone beyond the first commands is reached with these alone. -/
theorem Reaches.take {count : Nat} {start : State n}
    (hreaches : Reaches host arithmetic commands start state)
    (hwithin : ∀ me, (state.ranks me).IsWithin count) :
    Reaches host arithmetic (commands.take count) start state := by
  induction hreaches with
  | refl => exact .refl
  | tail _ hstep ih =>
    obtain ⟨hbefore, htake⟩ := hstep.take hwithin
    exact .tail (ih hbefore) htake

end Group

end CollectiveTuner.Session
