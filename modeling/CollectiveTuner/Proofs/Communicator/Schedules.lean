import CollectiveTuner.Communicator.Native
import CollectiveTuner.Proofs.Reduction.Merge
import CollectiveTuner.Proofs.Transport.Confluence

/-!
# Schedule independence of the native operations

What a rank can observe of a run is a function of its history: the replies of the calls that
have ended, and what the call under way has written so far. Histories do not depend on the
schedule, so neither do observations, whether the group ends or gets stuck.
-/

namespace CollectiveTuner.Native

open Transport Reduction

variable {n : Nat} {α : Type}

/-- Lets a program go through a history. What remains is the rest of the program and the part
of the history that it did not use. -/
def replay : RankProgram n α → History n → RankProgram n α × History n
  | .ask (.send _ _) next, ⟨.send _ _, delivered⟩ :: history => replay (next delivered) history
  | .ask (.receive _) next, ⟨.receive _, message⟩ :: history => replay (next message) history
  | program, history => (program, history)

/-- The value that a program ends with when nobody answers it any more. -/
def abandon : RankProgram n α → α
  | .done value => value
  | .ask (.send _ _) next => abandon (next false)
  | .ask (.receive _) next => abandon (next none)

/-- What one rank has seen of its script: the replies of the calls that have ended, in order,
and, when a call is under way, its writable buffer. A call that waits leaves behind what it
would leave if it failed there. -/
def observe (arithmetic : FloatArithmetic) (me : Fin n) :
    Script α → History n → List Reply × Option Bytes
  | .done _, _ => ([], none)
  | .ask call next, history =>
    match replay (answer arithmetic me call) history with
    | (.done reply, history) =>
      let (replies, buffer) := observe arithmetic me (next reply) history
      (reply :: replies, buffer)
    | (.ask op next, _) => ([], some (abandon (.ask op next)).output)

/-- Makes calls in turn, also after one of them has failed, and lists the replies. -/
def inTurn : List Call → Script (List Reply)
  | [] => .done []
  | call :: rest =>
    .ask call fun reply => (inTurn rest).bind fun replies => .done (reply :: replies)

/-- A group of `n` ranks about to run these scripts on the channels between them. -/
def groupOf (arithmetic : FloatArithmetic) (scripts : Fin n → Script α) : GroupState n α :=
  GroupState.opening fun me => run arithmetic me (scripts me)

/-- **Schedule independence.** Whatever calls the ranks make, no schedule runs forever, and
any two schedules that go on until no rank can take a step agree: the group has ended under
both or is stuck under both, every rank has seen the same replies and has the same bytes in
its buffer, and the same messages are left in every queue. -/
theorem schedules_agree (arithmetic : FloatArithmetic) (scripts : Fin n → Script α) :
    (¬ ∃ states : Nat → GroupState n α, states 0 = groupOf arithmetic scripts ∧
      ∀ k, (states k).Steps (states (k + 1))) ∧
    ∀ (histories histories' : Fin n → History n) (first second : GroupState n α),
      (groupOf arithmetic scripts).Runs histories first → first.AtRest →
      (groupOf arithmetic scripts).Runs histories' second → second.AtRest →
      (first.Finished ↔ second.Finished) ∧ first.results = second.results ∧
      (∀ me, observe arithmetic me (scripts me) (histories me) =
        observe arithmetic me (scripts me) (histories' me)) ∧
      ∀ source dest, first.network.queue source dest = second.network.queue source dest := by
  refine ⟨GroupState.no_endless_steps _, ?_⟩
  intro histories histories' first second hfirst hfirstEnd hsecond hsecondEnd
  obtain ⟨rfl, rfl⟩ := hfirst.confluent Network.isOpen_idle hfirstEnd hsecond hsecondEnd
  exact ⟨Iff.rfl, rfl, fun _ => rfl, fun _ _ => rfl⟩

/-- Two ranks whose calls do not match: rank 1 takes the message of rank 0 into a buffer that is
too long, which is an error, and rank 0 waits for a second message. -/
def crossed : Fin 2 → Script (List Reply)
  | 0 => inTurn [⟨.send 1, [7], []⟩, ⟨.receive 1, [], [0]⟩, ⟨.receive 1, [], [0]⟩]
  | 1 => inTurn [⟨.send 0, [8], []⟩, ⟨.receive 0, [], [0, 0]⟩]

/-- Two schedules of `crossed`, begun by different ranks, get stuck in the same way. -/
theorem schedules_agree_crossed :
    ∃ histories histories' first second,
      (groupOf firstOperand crossed).Runs histories first ∧ first.AtRest ∧
      (groupOf firstOperand crossed).Runs histories' second ∧ second.AtRest ∧
      ¬ first.Finished ∧
      observe firstOperand 1 (crossed 1) (histories 1) =
        ([⟨.ok (), []⟩, ⟨.error (.bufferSizeMismatch 2 1), [0, 0]⟩], none) ∧
      (first.Finished ↔ second.Finished) ∧ first.results = second.results ∧
      (∀ me, observe firstOperand me (crossed me) (histories me) =
        observe firstOperand me (crossed me) (histories' me)) ∧
      ∀ source dest, first.network.queue source dest = second.network.queue source dest := by
  obtain ⟨histories, first, hfirst, hend, hstuck, hobserved⟩ :
      ∃ histories state, (groupOf firstOperand crossed).Runs histories state ∧ state.AtRest ∧
        ¬ state.Finished ∧ observe firstOperand 1 (crossed 1) (histories 1) =
          ([⟨.ok (), []⟩, ⟨.error (.bufferSizeMismatch 2 1), [0, 0]⟩], none) := by
    refine ⟨_, _, @GroupState.Runs.act 2 _ _ _ _ 0 ⟨.send 1 [7], true⟩ _ ⟨_, _, rfl, rfl, rfl⟩ <|
      @GroupState.Runs.act 2 _ _ _ _ 1 ⟨.send 0 [8], true⟩ _ ⟨_, _, rfl, rfl, rfl⟩ <|
      @GroupState.Runs.act 2 _ _ _ _ 0 ⟨.receive 1, some [8]⟩ _ ⟨_, _, rfl, rfl, rfl⟩ <|
      @GroupState.Runs.act 2 _ _ _ _ 1 ⟨.receive 0, some [7]⟩ _ ⟨_, _, rfl, rfl, rfl⟩ <| .rest _,
      GroupState.atRest_iff.mpr (Fin.forall_fin_two.mpr ⟨rfl, rfl⟩), fun hfinished => ?_, rfl⟩
    obtain ⟨value, hvalue⟩ := hfinished 0
    cases hvalue
  obtain ⟨histories', second, hsecond, hend'⟩ :
      ∃ histories state, (groupOf firstOperand crossed).Runs histories state ∧ state.AtRest :=
    ⟨_, _, @GroupState.Runs.act 2 _ _ _ _ 1 ⟨.send 0 [8], true⟩ _ ⟨_, _, rfl, rfl, rfl⟩ <|
      @GroupState.Runs.act 2 _ _ _ _ 0 ⟨.send 1 [7], true⟩ _ ⟨_, _, rfl, rfl, rfl⟩ <|
      @GroupState.Runs.act 2 _ _ _ _ 1 ⟨.receive 0, some [7]⟩ _ ⟨_, _, rfl, rfl, rfl⟩ <|
      @GroupState.Runs.act 2 _ _ _ _ 0 ⟨.receive 1, some [8]⟩ _ ⟨_, _, rfl, rfl, rfl⟩ <| .rest _,
      GroupState.atRest_iff.mpr (Fin.forall_fin_two.mpr ⟨rfl, rfl⟩)⟩
  exact ⟨histories, histories', first, second, hfirst, hend, hsecond, hend', hstuck, hobserved,
    (schedules_agree firstOperand crossed).2 _ _ _ _ hfirst hend hsecond hend'⟩

end CollectiveTuner.Native
