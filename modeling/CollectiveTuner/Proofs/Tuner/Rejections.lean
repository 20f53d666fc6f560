import CollectiveTuner.FileTree
import CollectiveTuner.Proofs.Communicator.Rejections
import CollectiveTuner.Proofs.Tuner.Machine
import CollectiveTuner.Proofs.Tuner.Settling
import CollectiveTuner.Proofs.Tuner.Shortfalls

/-!
# Requests that are rejected

A root outside the group and a combination that is not defined show from the arguments of a
request, so all ranks reject it alike. When a decomposition is tried first, it begins with a
combination that is rejected for the same reason, or finds no room before that. Either way it fails
on every rank before anything is sent or written.
-/

namespace CollectiveTuner

open Native Scratch Reduction

variable {n : Nat} {arithmetic : FloatArithmetic} {messages integers chunk : Nat}
  {request : Request} {dtype : Datatype} {op : ReduceOp}

/-! ### Decompositions of rejected requests -/

/-- An attempt whose first call is rejected, if there is room for it, fails on its own. -/
theorem Pursues.run_of_first_rejected {me : Fin n} {script : Script (Except Error Unit × Workspace)}
    {output : Bytes} {room : Prop} {first : Primitive} {rest : List Primitive}
    {kept : Arena → Prop} {error : Error}
    (hpursues : Pursues (fun _ => false) (.rejecting error) 0 script output room (first :: rest)
      kept)
    (hfirst : room → first.rejection? n = some error) :
    ∃ (failure : Error) (after : Workspace),
      run arithmetic me script = .done (.error failure, after) ∧ after.output = output ∧
        kept after.arena := by
  obtain ⟨hcalls, hnone, hsucceeds, hkept, hspares⟩ := hpursues
  have hrejected : ∀ call ∈ (script.answeredFrom (.rejecting error) 0).2,
      call.primitive.rejection? n = some error := by
    intro call hmem
    by_cases hroom : room
    · have hprimitive := @List.mem_map_of_mem _ _ _ _ Call.primitive hmem
      rw [hcalls hroom] at hprimitive
      rw [List.mem_singleton.mp hprimitive]
      exact hfirst hroom
    · rw [hnone hroom] at hmem
      cases hmem
  have houtput := hspares (List.cons_ne_nil first rest) rfl fun _ => rfl
  have hrun : run arithmetic me script = _ := run_of_rejected hrejected
  cases hresult : (script.answeredFrom (.rejecting error) 0).1 with
  | mk status after =>
    rw [hresult] at hrun houtput hkept hsucceeds
    cases status with
    | ok => cases (hsucceeds.mp rfl).2.1
    | error failure => exact ⟨failure, after, hrun, houtput, hkept⟩

namespace Request

/-- Only combinations are rejected for anything but their root. -/
theorem exists_combination_of_not_accepted (hrejected : ¬ request.Accepted) :
    ∃ dtype op, request.primitive.combination? = some (dtype, op) := by
  cases request <;> first | exact ⟨_, _, rfl⟩ | exact absurd trivial hrejected

/-- A decomposition of a combination begins with a combination of the same kind. -/
theorem exists_first_of_plan {algorithm : Algorithm request.collective}
    (hcombination : request.primitive.combination? = some (dtype, op))
    (halgorithm : algorithm ≠ .native request.collective) (me : Member) (chunk : Nat) :
    ∃ first rest, request.plan me chunk algorithm = first :: rest ∧
      first.combination? = some (dtype, op) := by
  cases request <;> cases algorithm <;>
    first
    | exact ⟨_, _, rfl, hcombination⟩
    | exact absurd rfl halgorithm
    | cases hcombination

/-- When a combination is defined, it is rejected only for its count, and then a decomposition that
has room for it succeeds. -/
theorem possible_of_hasRoom {algorithm : Algorithm request.collective}
    (hcombination : request.primitive.combination? = some (dtype, op))
    (hsupported : Supported dtype op) (hrejected : ¬ request.Accepted)
    (hroom : request.HasRoom n messages integers chunk algorithm) :
    request.Possible n messages integers chunk algorithm := by
  refine ⟨hroom, ?_⟩
  cases request with
  | reduceScatterBlock =>
    cases hcombination
    exact hsupported
  | allreduce | reduce | scan =>
    cases hcombination
    exact absurd hsupported hrejected
  | _ => cases hcombination

/-- **A decomposition of a rejected request fails without a trace.** It uses no channel, the
caller's buffer is as it was, and scratch space has been given back. -/
theorem run_attempt_of_rejected {me : Fin n} {before : Workspace} {input : Bytes}
    {algorithm : Algorithm request.collective} {attempt : Attempt Unit}
    (hrejected : ¬ request.Accepted)
    (hpossible : ¬ request.Possible n messages integers chunk algorithm)
    (hready : before.arena.Ready messages integers)
    (hinput : request.inputBytes ⟨me, n⟩ ≤ input.length)
    (houtput : request.outputBytes ⟨me, n⟩ ≤ before.output.length)
    (hattempt : request.decomposition? arithmetic ⟨me, n⟩ chunk input algorithm = some attempt) :
    ∃ (failure : Error) (after : Workspace),
      run arithmetic me (attempt.run.run before) = .done (.error failure, after) ∧
        after.output = before.output ∧ after.arena.Ready messages integers := by
  have halgorithm : algorithm ≠ .native request.collective := by
    rintro rfl
    rw [Tuner.decomposition?_native] at hattempt
    cases hattempt
  obtain ⟨dtype, op, hcombination⟩ := exists_combination_of_not_accepted hrejected
  obtain ⟨first, rest, hplan, hfirst⟩ :=
    exists_first_of_plan hcombination halgorithm ⟨me, n⟩ chunk
  obtain ⟨error, herror⟩ : ∃ error, request.HasRoom n messages integers chunk algorithm →
      first.rejection? n = some error := by
    by_cases hsupported : Supported dtype op
    · exact ⟨.selectionUnavailable, fun hroom =>
        absurd (possible_of_hasRoom hcombination hsupported hrejected hroom) hpossible⟩
    · obtain ⟨error, herror⟩ := Primitive.exists_rejection hfirst hsupported n
      exact ⟨error, fun _ => herror⟩
  have hlocal : request.CombinesLocally false := by
    cases request <;> first | trivial | exact nofun
  have hpursues := @pursues_plan arithmetic _ _ 0 before ⟨me, n⟩ messages integers chunk input
    request attempt (answers_rejecting error) hready me.isLt hinput houtput hlocal algorithm
    hattempt
  rw [hplan] at hpursues
  exact hpursues.run_of_first_rejected herror

/-- A request that is not accepted is rejected on every rank: for its count if that does not fit in
a header, and otherwise because the combination is not defined. -/
theorem exists_rejection (hcombination : request.primitive.combination? = some (dtype, op))
    (hrejected : ¬ request.Accepted) (hroot : ∀ root ∈ request.root?, root < n) :
    ∃ error, request.primitive.rejection? n = some error ∧
      (∀ count, request = .reduceScatterBlock count dtype op → UInt32.size ≤ count →
        error = .invalidMessageSize count) ∧
      ((∀ count, request = .reduceScatterBlock count dtype op → count < UInt32.size) →
        error = .unsupportedDatatype dtype "bor") := by
  cases request with
  | reduce count =>
    cases hcombination
    exact ⟨_, (if_pos (hroot _ rfl)).trans (rejection?_of_not_supported hrejected), nofun,
      fun _ => rfl⟩
  | reduceScatterBlock count =>
    cases hcombination
    rcases Nat.lt_or_ge count UInt32.size with hfits | hlarge
    · have hunsupported : ¬ Supported dtype op := fun hsupported => hrejected ⟨hsupported, hfits⟩
      refine ⟨_, (if_pos hfits).trans (rejection?_of_not_supported hunsupported), ?_, fun _ => rfl⟩
      rintro _ ⟨⟩ hlarge
      exact absurd hfits hlarge.not_gt
    · refine ⟨_, if_neg (Nat.not_lt_of_le hlarge), ?_, fun hfits => ?_⟩
      · rintro _ ⟨⟩ _
        rfl
      · exact absurd (hfits count rfl) hlarge.not_gt
  | allreduce | scan =>
    cases hcombination
    exact ⟨_, rejection?_of_not_supported hrejected, nofun, fun _ => rfl⟩
  | _ => cases hcombination

/-- The error with which every rank rejects a request for its arguments, if it does. -/
def rejection? (n : Nat) (request : Request) : Option Error :=
  match request.root?.filter fun root => n ≤ root with
  | some root => some (.invalidRank root n)
  | none => request.primitive.rejection? n

end Request

namespace Tuner

open Request
open Transport (Settles settles_done)

/-! ### Calls that are rejected -/

section Calls

variable {tuner : Tuner} {me : Fin n} {input output : Bytes} {error : Error}

/-- A rank that can neither carry a request out natively nor decompose it fails on its own. -/
theorem run_dispatch_of_rejected (hme : tuner.me = ⟨me, n⟩)
    (hready : tuner.arena.Ready messages integers)
    (hinput : request.inputBytes ⟨me, n⟩ ≤ input.length)
    (houtput : request.outputBytes ⟨me, n⟩ ≤ output.length) (hrejected : ¬ request.Accepted)
    (hrejection : request.primitive.rejection? n = some error)
    (himpossible : ¬ tuner.CanDecompose messages integers request) :
    ∃ (events : List Event) (arena : Arena), arena.Ready messages integers ∧
      run arithmetic me (tuner.dispatch arithmetic request input output) =
        .done (concluded tuner request defaultAlgorithm events arena ⟨.error error, output⟩) := by
  cases hdecomposition : tuner.decomposition? arithmetic request input with
  | none =>
    obtain ⟨events, hdispatch⟩ := @dispatch_of_none _ _ _ _ output hdecomposition
    refine ⟨events, tuner.arena, hready, ?_⟩
    rw [hdispatch]
    change (answer arithmetic me _).bind _ = _
    rw [answer_of_rejection input output hrejection]
    rfl
  | some attempt =>
    obtain ⟨algorithm, hfound, hattempt⟩ := Option.bind_eq_some_iff.mp hdecomposition
    have halgorithm : algorithm ≠ .native request.collective := by
      rintro rfl
      rw [decomposition?_native] at hattempt
      cases hattempt
    have hid : tuner.selected request ≠ defaultAlgorithm :=
      id_of_ofId? hfound ▸ id_ne_default halgorithm
    have hpossible : ¬ request.Possible n messages integers tuner.configuration.minScatterChunk
        algorithm := by
      intro hpossible
      refine himpossible ⟨algorithm, hfound, halgorithm, ?_⟩
      rwa [hme]
    rw [hme] at hattempt
    obtain ⟨failure, after, hrun, hkept, hready'⟩ := @run_attempt_of_rejected n arithmetic messages
      integers _ request me ⟨tuner.arena, output⟩ input algorithm attempt hrejected hpossible hready
      hinput houtput hattempt
    obtain ⟨events, events', hdispatch⟩ := dispatch_of_some hdecomposition hid
    refine ⟨events' failure, after.arena, hready', ?_⟩
    rw [hdispatch, run, Program.interpret_bind]
    change (run arithmetic me (attempt.run.run ⟨tuner.arena, output⟩)).bind _ = _
    rw [hrun]
    change (answer arithmetic me _).bind _ = _
    rw [answer_of_rejection input after.output hrejection, hkept]
    rfl

/-- What a rank gets back that has failed without writing. -/
theorem restored_of_failed (me : Member) (tuner : Tuner) (request : Request) (id : AlgorithmId)
    (events : List Event) (arena : Arena) (error : Error) (input output : Bytes) :
    ∃ events', restored me request input output
      (concluded tuner request id events arena
        ⟨.error error, (measure me request input output).value.output⟩) =
      ⟨.error error, output, { tuner with arena }, events'⟩ := by
  have houtput : (if (measure me request input output).value.outputStandsIn then output
      else (measure me request input output).value.output) = output := by
    rw [value_measure]
    rcases Nat.lt_or_ge output.length (request.outputBytes me) with hshort | hlong
    · rw [value_standIn_of_lt hshort]
      rfl
    · rw [value_standIn_of_le hlong]
      rfl
  simp only [restored, concluded, houtput]
  exact ⟨_, rfl⟩

/-- **A rejected call of one rank.** It uses no channel, and what it leaves differs from what was
before in nothing but what scratch space holds. -/
theorem run_perform_of_rejected (hme : tuner.me = ⟨me, n⟩)
    (hready : tuner.arena.Ready messages integers) (hroot : ∀ root ∈ request.root?, root < n)
    (hrejected : ¬ request.Accepted) (hrejection : request.primitive.rejection? n = some error)
    (himpossible : ¬ tuner.CanDecompose messages integers request) (input output : Bytes) :
    ∃ (events : List Event) (arena : Arena), arena.Ready messages integers ∧
      run arithmetic me (tuner.perform arithmetic request input output) =
        .done ⟨.error error, output, { tuner with arena }, events⟩ := by
  have hinput : request.inputBytes ⟨me, n⟩ ≤
      (measure ⟨me, n⟩ request input output).value.input.length := le_length_standIn _ _ _
  have houtput : request.outputBytes ⟨me, n⟩ ≤
      (measure ⟨me, n⟩ request input output).value.output.length := le_length_standIn _ _ _
  obtain ⟨events, arena, hready', hrun⟩ := @run_dispatch_of_rejected n arithmetic messages integers
    request tuner me _ _ error hme hready hinput houtput hrejected hrejection himpossible
  obtain ⟨events', hrestored⟩ :=
    restored_of_failed ⟨me, n⟩ tuner request defaultAlgorithm events arena error input output
  refine ⟨events', arena, hready', ?_⟩
  have hperform := @perform_of_root arithmetic request tuner input output (by rwa [hme])
  rw [hme] at hperform
  rw [hperform, run, Program.interpret_bind]
  change (run arithmetic me _).bind _ = _
  rw [hrun]
  exact congrArg Program.done hrestored

end Calls

/-! ### The call after a rejected one -/

/-- Two tuners that differ in nothing but what their scratch space holds. -/
structure UpToScratch (before after : Tuner) : Prop extends SameSetup before after where
  recorder : after.recorder = before.recorder

namespace UpToScratch

variable {first second : Tuner} (hsame : first.UpToScratch second)

include hsame

/-- Both select the same algorithm. -/
theorem selected_eq (request : Request) : second.selected request = first.selected request :=
  congrArg Logged.value
    (select_congr hsame.catalog hsame.context (congrArg Member.size hsame.me) _ _)

/-- Both can decompose the same requests. -/
theorem canDecompose_iff (request : Request) : second.CanDecompose messages integers request ↔
    first.CanDecompose messages integers request := by
  rw [CanDecompose, CanDecompose, hsame.selected_eq, hsame.me, hsame.configuration]

/-- Calls that record the same leave them so. -/
theorem of_sameSetup {first' second' : Tuner} (hfirst : first.SameSetup first')
    (hsecond : second.SameSetup second') (hrecorder : second'.recorder = first'.recorder) :
    first'.UpToScratch second' where
  me := by rw [hsecond.me, hsame.me, hfirst.me]
  catalog := by rw [hsecond.catalog, hsame.catalog, hfirst.catalog]
  context := by rw [hsecond.context, hsame.context, hfirst.context]
  configuration := by rw [hsecond.configuration, hsame.configuration, hfirst.configuration]
  recorder := hrecorder

end UpToScratch

section Group

variable {tuners tuners' : Fin n → Tuner} {inputs outputs : Fin n → Bytes}

/-- Tuners in step can decompose the same requests. -/
theorem InStep.canDecompose_iff (hinstep : InStep messages integers tuners) (request : Request)
    (rank other : Fin n) : (tuners rank).CanDecompose messages integers request ↔
      (tuners other).CanDecompose messages integers request := by
  rw [CanDecompose, CanDecompose, hinstep.selected_eq request rank other,
    hinstep.configuration rank other, hinstep.me, hinstep.me]

/-- All ranks can carry the request out, natively or by decompositions. -/
def Feasible (messages integers : Nat) (tuners : Fin n → Tuner) (request : Request) : Prop :=
  (∀ root ∈ request.root?, root < n) ∧
    (request.Accepted ∨ ∀ me, (tuners me).CanDecompose messages integers request)

/-- **A request that cannot be carried out is rejected whatever the buffers are.** All ranks give
the same error and keep their outputs. -/
theorem exists_rejection_of_not_feasible (hinstep : InStep messages integers tuners)
    (hinfeasible : ¬ Feasible messages integers tuners request) :
    ∃ error, request.rejection? n = some error ∧ ∀ inputs outputs : Fin n → Bytes,
      ∃ (arenas : Fin n → Arena) (events : Fin n → List Event), ∀ me, run arithmetic me
        ((tuners me).perform arithmetic request (inputs me) (outputs me)) =
          .done ⟨.error error, outputs me, { tuners me with arena := arenas me }, events me⟩ := by
  by_cases hroot : ∀ root ∈ request.root?, root < n
  · -- Neither the native operation nor a decomposition carries the request out.
    obtain ⟨hrejected, himpossible⟩ := not_or.mp fun hserved => hinfeasible ⟨hroot, hserved⟩
    have hnone (me : Fin n) : ¬ (tuners me).CanDecompose messages integers request :=
      fun hpossible => himpossible fun other =>
        (hinstep.canDecompose_iff request me other).mp hpossible
    obtain ⟨dtype, op, hcombination⟩ := exists_combination_of_not_accepted hrejected
    obtain ⟨error, hrejection, -⟩ := exists_rejection hcombination hrejected hroot
    have hfilter : (request.root?.filter fun root => n ≤ root) = none := by
      rw [Option.filter_eq_none_iff]
      intro root hmem
      simpa using hroot root hmem
    refine ⟨error, by rw [Request.rejection?, hfilter]; exact hrejection, fun inputs outputs => ?_⟩
    choose events arenas _ hrun using fun me => @run_perform_of_rejected n arithmetic messages
      integers request (tuners me) me error (hinstep.me me) (hinstep.arena me) hroot hrejected
      hrejection (hnone me) (inputs me) (outputs me)
    exact ⟨arenas, events, hrun⟩
  · obtain ⟨root, hmem, hlarge⟩ : ∃ root ∈ request.root?, ¬ root < n := by simpa using hroot
    have hlarge := Nat.le_of_not_lt hlarge
    have hfilter : (request.root?.filter fun root => n ≤ root) = some root := by
      simp [Option.mem_def.mp hmem, hlarge]
    refine ⟨.invalidRank root n, by rw [Request.rejection?, hfilter], fun inputs outputs =>
      ⟨fun me => (tuners me).arena, fun _ => [], fun me => ?_⟩⟩
    rw [perform_of_invalid_root hmem (by rwa [hinstep.me]), hinstep.me]
    rfl

/-- When no call is refused, a call delivers that the native operation or a decomposition serves. -/
theorem Ends.delivers_of_served {stop : Nat} {outcomes : Fin n → Outcome} {possible : Prop}
    (hends : Ends arithmetic (fun _ => none) 0 stop request tuners inputs outputs outcomes possible)
    (hserved : request.Accepted ∨ possible) :
    Delivers arithmetic request inputs outputs outcomes := by
  rcases hserved with haccepted | hpossible
  · exact (hends.of_last_served haccepted fun _ _ => rfl).1
  · exact (hends.of_possible (fun _ => rfl) hpossible).1

end Group

end Tuner

end CollectiveTuner
