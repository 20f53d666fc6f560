import CollectiveTuner.Proofs.Tuner.Requests
import CollectiveTuner.Tuner

/-!
# Calls of a group of tuners

Tuners that were started alike and have served the same calls agree on everything that decides
what a call does: they are in step. A call that all of them serve keeps all ranks in lockstep,
whatever the callers' buffers are, and leaves the tuners in step.
-/

namespace CollectiveTuner.Tuner

open Native Scratch Request
open Transport (EndsWith)

variable {n : Nat}

/-- The tuners agree on what selects algorithms, and their scratch space is free and equally
large. -/
structure InStep (messages integers : Nat) (tuners : Fin n → Tuner) : Prop where
  me : ∀ rank, (tuners rank).me = ⟨rank, n⟩
  catalog : ∀ rank other, (tuners rank).catalog = (tuners other).catalog
  context : ∀ rank other, (tuners rank).context = (tuners other).context
  configuration : ∀ rank other, (tuners rank).configuration = (tuners other).configuration
  arena : ∀ rank, (tuners rank).arena.Ready messages integers

/-- Two tuners that differ in nothing but scratch space and the record. -/
structure SameSetup (before after : Tuner) : Prop where
  me : after.me = before.me
  catalog : after.catalog = before.catalog
  context : after.context = before.context
  configuration : after.configuration = before.configuration

section InStep

variable {messages integers : Nat} {tuners after : Fin n → Tuner}

/-- Tuners whose setup stays the same stay in step when nothing of their arenas is handed out. -/
theorem InStep.of_sameSetup (hinstep : InStep messages integers tuners)
    (hsame : ∀ me, (tuners me).SameSetup (after me))
    (hready : ∀ me, (after me).arena.Ready messages integers) : InStep messages integers after where
  me rank := (hsame rank).me.trans (hinstep.me rank)
  catalog rank other := by
    rw [(hsame rank).catalog, (hsame other).catalog, hinstep.catalog rank other]
  context rank other := by
    rw [(hsame rank).context, (hsame other).context, hinstep.context rank other]
  configuration rank other := by
    rw [(hsame rank).configuration, (hsame other).configuration, hinstep.configuration rank other]
  arena := hready

end InStep

/-! ### Selecting an algorithm -/

/-- The selection depends on nothing but the catalog, the context and the size of the group. -/
theorem select_congr {first second : Tuner} (hcatalog : first.catalog = second.catalog)
    (hcontext : first.context = second.context) (hsize : first.me.size = second.me.size)
    (op : Collective) (size : Nat) : first.select op size = second.select op size := by
  simp only [select, hcatalog, hcontext, hsize]

/-- An identifier is resolved to its algorithm. -/
theorem value_resolve (op : Collective) (id : AlgorithmId) :
    (resolve op id).value = Algorithm.ofId? op id := by
  dsimp only [resolve]
  split <;> rfl

/-- Every algorithm but the native one stands for a decomposition, on all ranks alike. -/
theorem exists_decomposition (arithmetic : FloatArithmetic) (chunk : Nat) {request : Request}
    {algorithm : Algorithm request.collective} (halgorithm : algorithm ≠ .native request.collective)
    (me : Member) (input : Bytes) :
    ∃ attempt, request.decomposition? arithmetic me chunk input algorithm = some attempt := by
  cases request <;> cases algorithm <;> first | exact ⟨_, rfl⟩ | exact absurd rfl halgorithm

/-- The native algorithm has no decomposition. -/
theorem decomposition?_native (arithmetic : FloatArithmetic) (me : Member) (chunk : Nat)
    (input : Bytes) (request : Request) :
    request.decomposition? arithmetic me chunk input (.native request.collective) = none := by
  cases request <;> rfl

/-- Only the native algorithm has the default identifier. -/
theorem id_ne_default {op : Collective} {algorithm : Algorithm op}
    (halgorithm : algorithm ≠ .native op) : algorithm.id ≠ defaultAlgorithm := by
  cases algorithm <;> first | exact absurd rfl halgorithm | decide

/-- An algorithm is found under its own identifier. -/
theorem id_of_ofId? {op : Collective} {id : AlgorithmId} {algorithm : Algorithm op}
    (hfound : Algorithm.ofId? op id = some algorithm) : algorithm.id = id := by
  simpa using List.find?_some hfound

/-- The algorithm that a tuner selects for a request. -/
def selected (tuner : Tuner) (request : Request) : AlgorithmId :=
  (tuner.select request.collective request.messageBytes).value

/-- Tuners in step select the same algorithm. -/
theorem InStep.selected_eq {messages integers : Nat} {tuners : Fin n → Tuner}
    (hinstep : InStep messages integers tuners) (request : Request) (rank other : Fin n) :
    (tuners rank).selected request = (tuners other).selected request :=
  congrArg Logged.value (select_congr (hinstep.catalog rank other) (hinstep.context rank other)
    (by rw [hinstep.me, hinstep.me]) _ _)

/-- The decomposition that a tuner runs for a request. When the native algorithm is selected there
is none. -/
def decomposition? (arithmetic : FloatArithmetic) (tuner : Tuner) (request : Request)
    (input : Bytes) : Option (Attempt Unit) :=
  (Algorithm.ofId? request.collective (tuner.selected request)).bind
    (request.decomposition? arithmetic tuner.me tuner.configuration.minScatterChunk input)

/-! ### Running an algorithm -/

section Dispatch

/-- What a call comes back with after the native operation has replied, or in its place. -/
def concluded (tuner : Tuner) (request : Request) (id : AlgorithmId) (events : List Event)
    (arena : Arena) (reply : Reply) : Outcome :=
  let tuner := { tuner with arena }
  { status := reply.status
    output := reply.output
    tuner :=
      match reply.status with
      | .ok () => tuner.record request.collective request.messageBytes id
      | .error _ => tuner
    events }

variable {arithmetic : FloatArithmetic} {tuner : Tuner} {request : Request} {input output : Bytes}

/-- Concluding a call leaves the setup as it is. -/
theorem sameSetup_concluded (id : AlgorithmId) (events : List Event) (arena : Arena)
    (reply : Reply) : tuner.SameSetup (concluded tuner request id events arena reply).tuner := by
  unfold concluded
  dsimp only
  split <;> exact ⟨rfl, rfl, rfl, rfl⟩

/-- Concluding a call leaves the arena that the call left. -/
theorem arena_concluded (id : AlgorithmId) (events : List Event) (arena : Arena) (reply : Reply) :
    (concluded tuner request id events arena reply).tuner.arena = arena := by
  unfold concluded
  dsimp only
  split <;> rfl

/-- Without a decomposition the native operation runs. -/
theorem dispatch_of_none (hnone : tuner.decomposition? arithmetic request input = none) :
    ∃ events, tuner.dispatch arithmetic request input output =
      .ask ⟨request.primitive, input, output⟩ fun reply =>
        .done (concluded tuner request defaultAlgorithm events tuner.arena reply) := by
  rw [decomposition?, selected, ← value_resolve] at hnone
  unfold dispatch
  dsimp only
  rw [hnone]
  exact ⟨_, rfl⟩

/-- A decomposition runs first. The native operation runs only when it fails. -/
theorem dispatch_of_some {attempt : Attempt Unit}
    (hsome : tuner.decomposition? arithmetic request input = some attempt)
    (hid : tuner.selected request ≠ defaultAlgorithm) :
    ∃ (events : List Event) (events' : Error → List Event),
      tuner.dispatch arithmetic request input output =
        (attempt.run.run ⟨tuner.arena, output⟩).bind fun result =>
          match result.1 with
          | .ok () =>
            .done (concluded tuner request (tuner.selected request) events result.2.arena
              ⟨.ok (), result.2.output⟩)
          | .error error =>
            .ask ⟨request.primitive, input, result.2.output⟩ fun reply =>
              .done (concluded tuner request defaultAlgorithm (events' error) result.2.arena
                reply) := by
  let selected := tuner.select request.collective request.messageBytes
  let events := selected.events ++ (resolve request.collective selected.value).events
  refine ⟨events ++ [],
    fun error => events ++ (settle request.collective selected.value (some (.error error))).events,
    ?_⟩
  rw [decomposition?, Tuner.selected, ← value_resolve] at hsome
  unfold dispatch
  dsimp only
  rw [hsome]
  change (attempt.run.run ⟨tuner.arena, output⟩).bind _ = _
  congr 1
  funext ⟨status, workspace⟩
  cases status with
  | ok =>
    change ite (tuner.selected request = defaultAlgorithm) _ _ = _
    rw [if_neg hid]
    rfl
  | error => rfl

end Dispatch

/-! ### All ranks together -/

section Group

variable {arithmetic : FloatArithmetic} {refusals : Refusals n} {request : Request}
  {inputs outputs : Fin n → Bytes} {messages integers : Nat} {tuners : Fin n → Tuner}

/-- The native operation of a request, made by all ranks. -/
theorem lockstep_native (hn : 0 < n) (hsupplied : request.Supplied inputs outputs) (position : Nat)
    (next : Fin n → Reply → Outcome) :
    ∃ replies : Fin n → Reply, Lockstep arithmetic refusals position
      (fun me => .ask ⟨request.primitive, inputs me, outputs me⟩ fun reply => .done (next me reply))
      (position + 1) (fun me => next me (replies me)) ∧
      (request.Accepted → refusals position = none → replies = fun me =>
        ⟨.ok (), (outputs me).overwrite 0 (request.contents arithmetic inputs outputs me)⟩) ∧
      ∀ errors, refusals position = some errors → ∀ me, (replies me).status = .error (errors me) :=
    by
  have hserves := @serves_primitive n arithmetic request inputs outputs hn hsupplied
  cases hrefused : refusals position with
  | some errors =>
    refine ⟨fun me => ⟨.error (errors me), outputs me⟩, .refused hrefused (.done _ _),
      fun _ => nofun, fun errors' heq me => ?_⟩
    rw [Option.some.inj heq]
  | none =>
    by_cases haccepted : request.Accepted
    · exact ⟨_, .answered hrefused (hserves.together haccepted).settles_answer (.done _ _),
        fun _ _ => rfl, nofun⟩
    · obtain ⟨error, htogether⟩ := hserves.rejected haccepted
      exact ⟨_, .answered hrefused htogether.settles_answer (.done _ _),
        fun h => absurd h haccepted, nofun⟩

/-- All ranks succeed and get the contents of the request. -/
def Delivers (arithmetic : FloatArithmetic) (request : Request) (inputs outputs : Fin n → Bytes)
    (outcomes : Fin n → Outcome) : Prop :=
  ∀ me, (outcomes me).status = .ok () ∧
    (outcomes me).output = (outputs me).overwrite 0 (request.contents arithmetic inputs outputs me)

/-- The ranks that record have recorded this algorithm for the request. -/
def Records (request : Request) (tuners : Fin n → Tuner) (ids : Fin n → AlgorithmId)
    (outcomes : Fin n → Outcome) : Prop :=
  ∀ me, (outcomes me).tuner.recorder = (tuners me).recorder.map fun recorder =>
    recorder.record request.collective request.messageBytes (ids me)

/-- The selected algorithm has a decomposition, and it succeeds unless one of its calls is
refused. -/
def CanDecompose (messages integers : Nat) (tuner : Tuner) (request : Request) : Prop :=
  ∃ algorithm, Algorithm.ofId? request.collective (tuner.selected request) = some algorithm ∧
    algorithm ≠ .native request.collective ∧
    request.Possible tuner.me.size messages integers tuner.configuration.minScatterChunk algorithm

/-- The decompositions of all ranks, carried out by themselves with the same calls refused, end in
success. -/
def Carries (arithmetic : FloatArithmetic) (refusals : Refusals n) (position : Nat)
    (tuners : Fin n → Tuner) (request : Request) (inputs outputs : Fin n → Bytes) : Prop :=
  ∃ (attempts : Fin n → Attempt Unit)
    (results : Fin n → (Except Error Unit × Workspace) × List Call),
    (∀ me, (tuners me).decomposition? arithmetic request (inputs me) = some (attempts me)) ∧
    EndsWith (fun me => run arithmetic me (Script.monitoredFrom (refusals.on me) position
      ((attempts me).run.run ⟨(tuners me).arena, outputs me⟩))) results ∧
    ∀ me, (results me).1.1 = .ok ()

/-- How a call ends that all ranks make together. -/
inductive Ends (arithmetic : FloatArithmetic) (refusals : Refusals n) (position stop : Nat)
    (request : Request) (tuners : Fin n → Tuner) (inputs outputs : Fin n → Bytes)
    (outcomes : Fin n → Outcome) (possible : Prop) : Prop
  /-- The decompositions have done what was requested. -/
  | decomposed (hpossible : possible)
      (hcarried : Carries arithmetic refusals position tuners request inputs outputs)
      (hnone : ∀ called, position ≤ called → called < stop → refusals called = none)
      (hdelivers : Delivers arithmetic request inputs outputs outcomes)
      (hrecords : Records request tuners (fun me => (tuners me).selected request) outcomes)
  /-- There are no decompositions or they have failed, and the native operation came last. -/
  | native (last : Nat) (hlast : position ≤ last) (hstop : stop = last + 1)
      (hcause : possible → ∃ called < last, refusals called ≠ none)
      (hcarried : ¬ Carries arithmetic refusals position tuners request inputs outputs)
      (hserved : request.Accepted → refusals last = none →
        Delivers arithmetic request inputs outputs outcomes ∧
          Records request tuners (fun _ => defaultAlgorithm) outcomes)
      (hrefused : ∀ errors, refusals last = some errors → ∀ me,
        (outcomes me).status = .error (errors me) ∧
          (outcomes me).tuner.recorder = (tuners me).recorder)

section Ends

variable {position stop last : Nat} {outcomes : Fin n → Outcome} {possible : Prop}
  (hends : Ends arithmetic refusals position stop request tuners inputs outputs outcomes possible)

include hends

/-- Unless its last primitive call is refused, a call delivers. It records what has delivered. -/
theorem Ends.of_last_served (haccepted : request.Accepted)
    (hlast : ∀ last, stop = last + 1 → refusals last = none) :
    Delivers arithmetic request inputs outputs outcomes ∧
      (Carries arithmetic refusals position tuners request inputs outputs →
        Records request tuners (fun me => (tuners me).selected request) outcomes) ∧
      (¬ Carries arithmetic refusals position tuners request inputs outputs →
        Records request tuners (fun _ => defaultAlgorithm) outcomes) := by
  cases hends with
  | decomposed _ hcarried _ hdelivers hrecords =>
    exact ⟨hdelivers, fun _ => hrecords, fun hfailed => absurd hcarried hfailed⟩
  | native last _ hstop _ hfailed hserved =>
    have hnative := hserved haccepted (hlast last hstop)
    exact ⟨hnative.1, fun hcarried => absurd hcarried hfailed, fun _ => hnative.2⟩

/-- When its last primitive call is refused, a call fails with that error and records nothing. -/
theorem Ends.of_last_refused {errors : Fin n → Error} (hposition : position ≤ last)
    (hstop : stop = last + 1) (hrefused : refusals last = some errors) :
    (possible → ∃ called < last, refusals called ≠ none) ∧
      ∀ me, (outcomes me).status = .error (errors me) ∧
        (outcomes me).tuner.recorder = (tuners me).recorder := by
  cases hends with
  | decomposed _ _ hnone =>
    have hserved := hnone last hposition (by omega)
    cases hserved.symm.trans hrefused
  | native called _ hcalled hcause _ _ hfailed =>
    obtain rfl : called = last := by omega
    exact ⟨hcause, hfailed errors hrefused⟩

/-- When no call is refused, a decomposition that is possible succeeds. -/
theorem Ends.carries_iff (hnone : ∀ called, refusals called = none) :
    Carries arithmetic refusals position tuners request inputs outputs ↔ possible := by
  cases hends with
  | decomposed hpossible hcarried => exact ⟨fun _ => hpossible, fun _ => hcarried⟩
  | native last _ _ hcause hfailed =>
    refine ⟨fun hcarried => absurd hcarried hfailed, fun hpossible => ?_⟩
    obtain ⟨called, -, hrefused⟩ := hcause hpossible
    exact absurd (hnone called) hrefused

/-- When no call is refused, a decomposition that is possible delivers and is recorded. -/
theorem Ends.of_possible (hnone : ∀ called, refusals called = none) (hpossible : possible) :
    Delivers arithmetic request inputs outputs outcomes ∧
      Records request tuners (fun me => (tuners me).selected request) outcomes := by
  cases hends with
  | decomposed _ _ _ hdelivers hrecords => exact ⟨hdelivers, hrecords⟩
  | native last _ _ hcause =>
    obtain ⟨called, -, hrefused⟩ := hcause hpossible
    exact absurd (hnone called) hrefused

end Ends

/-- The native operation ends a call, also after a decomposition that has spoiled nothing. -/
theorem served_native (hn : 0 < n) (hinstep : InStep messages integers tuners)
    (hsupplied : request.Supplied inputs outputs) {outputs' : Fin n → Bytes}
    (hlength : ∀ me, (outputs' me).length = (outputs me).length)
    (hrecovers : ∀ me, (outputs' me).overwrite 0 (request.contents arithmetic inputs outputs' me) =
      (outputs me).overwrite 0 (request.contents arithmetic inputs outputs me))
    {arenas : Fin n → Arena} (harenas : ∀ me, (arenas me).Ready messages integers)
    (events : Fin n → List Event) (last : Nat) :
    ∃ outcomes : Fin n → Outcome,
      Lockstep arithmetic refusals last (fun me =>
        .ask ⟨request.primitive, inputs me, outputs' me⟩ fun reply => .done
          (concluded (tuners me) request defaultAlgorithm (events me) (arenas me) reply)) (last + 1)
        outcomes ∧
      InStep messages integers (fun me => (outcomes me).tuner) ∧
      (request.Accepted → refusals last = none →
        Delivers arithmetic request inputs outputs outcomes ∧
          Records request tuners (fun _ => defaultAlgorithm) outcomes) ∧
      ∀ errors, refusals last = some errors → ∀ me, (outcomes me).status = .error (errors me) ∧
        (outcomes me).tuner.recorder = (tuners me).recorder := by
  have hsupplied' : request.Supplied inputs outputs' :=
    ⟨hsupplied.root, hsupplied.inputs, fun me => (hsupplied.outputs me).trans_eq (hlength me).symm⟩
  obtain ⟨replies, hlockstep, hreplies, hrefused⟩ := @lockstep_native n arithmetic refusals request
    inputs outputs' hn hsupplied' last fun me reply =>
      concluded (tuners me) request defaultAlgorithm (events me) (arenas me) reply
  refine ⟨_, hlockstep, hinstep.of_sameSetup (fun me => sameSetup_concluded _ _ _ _) fun me => ?_,
    fun haccepted hnone => ?_, fun errors hsome me => ?_⟩
  · rw [arena_concluded]
    exact harenas me
  · rw [hreplies haccepted hnone]
    exact ⟨fun me => ⟨rfl, hrecovers me⟩, fun _ => rfl⟩
  · have hstatus := hrefused errors hsome me
    refine ⟨hstatus, ?_⟩
    unfold concluded
    rw [hstatus]

/-- Started at a position, the scripts keep the ranks in lockstep, leave tuners that are in step,
and end as a call does. -/
def Served (arithmetic : FloatArithmetic) (refusals : Refusals n) (messages integers position : Nat)
    (request : Request) (tuners : Fin n → Tuner) (inputs outputs : Fin n → Bytes)
    (possible : Prop) (scripts : Fin n → Script Outcome) : Prop :=
  ∃ (stop : Nat) (outcomes : Fin n → Outcome),
    Lockstep arithmetic refusals position scripts stop outcomes ∧
    InStep messages integers (fun me => (outcomes me).tuner) ∧
    Ends arithmetic refusals position stop request tuners inputs outputs outcomes possible

/-- A call that finds no decomposition. -/
theorem served_dispatch_of_none (hn : 0 < n) (hinstep : InStep messages integers tuners)
    (hsupplied : request.Supplied inputs outputs) (position : Nat) {possible : Prop}
    (hpossible : ¬ possible)
    (hnone : ∀ me, (tuners me).decomposition? arithmetic request (inputs me) = none) :
    Served arithmetic refusals messages integers position request tuners inputs outputs possible
      fun me => (tuners me).dispatch arithmetic request (inputs me) (outputs me) := by
  choose events hdispatch using fun me => @dispatch_of_none _ _ _ _ (outputs me) (hnone me)
  obtain ⟨outcomes, hlockstep, hafter, hserved, hrefused⟩ := @served_native n arithmetic refusals
    request inputs outputs messages integers tuners hn hinstep hsupplied outputs (fun _ => rfl)
    (fun _ => rfl) _ hinstep.arena events position
  rw [← funext hdispatch] at hlockstep
  refine ⟨position + 1, outcomes, hlockstep, hafter, .native position le_rfl rfl
    (fun h => absurd h hpossible) (fun hcarries => ?_) hserved hrefused⟩
  obtain ⟨attempts, _, hsome, _, _⟩ := hcarries
  exact Option.some_ne_none _ ((hsome ⟨0, hn⟩).symm.trans (hnone _))

/-- A call that finds a decomposition. -/
theorem served_dispatch_of_some (hn : 0 < n) (hinstep : InStep messages integers tuners)
    (hsupplied : request.Supplied inputs outputs) (position : Nat) {possible : Prop}
    {attempts : Fin n → Attempt Unit}
    (hsome : ∀ me, (tuners me).decomposition? arithmetic request (inputs me) = some (attempts me))
    (hid : ∀ me, (tuners me).selected request ≠ defaultAlgorithm)
    (hachieved : request.Achieved arithmetic refusals messages integers position possible inputs
      attempts fun me => ⟨(tuners me).arena, outputs me⟩) :
    Served arithmetic refusals messages integers position request tuners inputs outputs possible
      fun me => (tuners me).dispatch arithmetic request (inputs me) (outputs me) := by
  choose events events' hdispatch using fun me =>
    @dispatch_of_some _ _ _ _ (outputs me) _ (hsome me) (hid me)
  rw [funext hdispatch]
  obtain ⟨touched, ⟨stop, ⟨values, after, hlockstep, hnone, hcompletes⟩ |
    ⟨errors, after, hlockstep, habandons⟩⟩, hrecovers⟩ := hachieved
  · obtain ⟨calls, hsettles, _⟩ := hlockstep.settles_monitored
    refine ⟨stop, _, hlockstep.bind (.done stop _), hinstep.of_sameSetup
      (fun me => sameSetup_concluded _ _ _ _) fun me => ?_, .decomposed hcompletes.possible
        ⟨attempts, _, hsome, hsettles.endsWith, fun _ => rfl⟩ hnone
        (fun me => ⟨rfl, hcompletes.output me⟩) fun _ => rfl⟩
    rw [arena_concluded]
    exact hcompletes.arena me
  · obtain ⟨outcomes, hlockstep', hafter, hserved, hrefused⟩ := @served_native n arithmetic
      refusals request inputs outputs messages integers tuners hn hinstep hsupplied
      (fun me => (after me).output) (fun me => (habandons.output me).1)
      (hrecovers _ habandons.output) _ habandons.arena (fun me => events' me (errors me)) stop
    refine ⟨stop + 1, outcomes, hlockstep.bind hlockstep', hafter, .native stop
      hlockstep.position_le rfl habandons.cause (fun hcarries => ?_) hserved hrefused⟩
    -- The decompositions end in only one way, and that is in these errors.
    obtain ⟨attempts', results, hsome', hends, hok⟩ := hcarries
    obtain rfl : attempts' = attempts :=
      funext fun me => Option.some.inj ((hsome' me).symm.trans (hsome me))
    obtain ⟨calls, hsettles, _⟩ := hlockstep.settles_monitored
    have hfirst := hok ⟨0, hn⟩
    rw [hsettles.eq_of_endsWith hends] at hfirst
    cases hfirst

/-- All ranks select the same algorithm. Either no rank has a decomposition for it, or all have,
and these succeed together unless one of their calls is refused. -/
theorem attempts_cases (hn : 0 < n) (hinstep : InStep messages integers tuners)
    (hsupplied : request.Supplied inputs outputs) (position : Nat) :
    ((∀ me, (tuners me).decomposition? arithmetic request (inputs me) = none) ∧
      ¬ ∀ me, (tuners me).CanDecompose messages integers request) ∨
    ∃ attempts : Fin n → Attempt Unit,
      (∀ me, (tuners me).decomposition? arithmetic request (inputs me) = some (attempts me)) ∧
      (∀ me, (tuners me).selected request ≠ defaultAlgorithm) ∧
      request.Achieved arithmetic refusals messages integers position
        (∀ me, (tuners me).CanDecompose messages integers request) inputs attempts
        fun me => ⟨(tuners me).arena, outputs me⟩ := by
  let root : Fin n := ⟨0, hn⟩
  have hselected (me : Fin n) := hinstep.selected_eq request me root
  have hchunk (me : Fin n) : (tuners me).configuration.minScatterChunk =
      (tuners root).configuration.minScatterChunk := by
    rw [hinstep.configuration me root]
  cases hfound : Algorithm.ofId? request.collective ((tuners root).selected request) with
  | none =>
    refine .inl ⟨fun me => ?_, fun hpossible => ?_⟩
    · rw [decomposition?, hselected, hfound]
      rfl
    · obtain ⟨algorithm, hsome, -⟩ := hpossible root
      rw [hfound] at hsome
      cases hsome
  | some algorithm =>
    by_cases hnative : algorithm = .native request.collective
    · refine .inl ⟨fun me => ?_, fun hpossible => ?_⟩
      · rw [decomposition?, hselected, hfound, hnative]
        exact decomposition?_native _ _ _ _ _
      · obtain ⟨found, hsome, hother, -⟩ := hpossible root
        rw [hfound] at hsome
        exact hother ((Option.some.inj hsome).symm.trans hnative)
    · choose attempts hattempts using fun me : Fin n => exists_decomposition arithmetic
        (tuners root).configuration.minScatterChunk hnative ⟨me, n⟩ (inputs me)
      have hpossible : (∀ me, (tuners me).CanDecompose messages integers request) ↔
          request.Possible n messages integers (tuners root).configuration.minScatterChunk
            algorithm := by
        simp only [CanDecompose, hselected, hfound, hinstep.me, hchunk, Option.some.injEq,
          exists_eq_left', ne_eq, hnative, not_false_eq_true, true_and]
        exact ⟨fun h => h root, fun h _ => h⟩
      rw [hpossible]
      refine .inr ⟨attempts, fun me => ?_, fun me => ?_,
        achieved_of_decomposition hn hinstep.arena _ hsupplied hattempts⟩
      · rw [decomposition?, hselected, hfound, hinstep.me, hchunk]
        exact hattempts me
      · rw [hselected, ← id_of_ofId? hfound]
        exact id_ne_default hnative

/-- A call with buffers that are long enough. -/
theorem served_dispatch (hn : 0 < n) (hinstep : InStep messages integers tuners)
    (hsupplied : request.Supplied inputs outputs) (position : Nat) :
    Served arithmetic refusals messages integers position request tuners inputs outputs
      (∀ me, (tuners me).CanDecompose messages integers request)
      fun me => (tuners me).dispatch arithmetic request (inputs me) (outputs me) := by
  rcases @attempts_cases n arithmetic refusals request inputs outputs messages integers tuners hn
    hinstep hsupplied position with ⟨hnone, hpossible⟩ | ⟨attempts, hsome, hid, hachieved⟩
  · exact served_dispatch_of_none hn hinstep hsupplied position hpossible hnone
  · exact served_dispatch_of_some hn hinstep hsupplied position hsome hid hachieved

/-! ### Buffers that are too short -/

section StandIns

variable {op : Collective} {needed : Nat} {buffer : Bytes}

/-- A buffer that is long enough stands for itself. -/
theorem value_standIn_of_le (hlong : needed ≤ buffer.length) :
    (standIn op needed buffer).value = (buffer, none) := by
  rw [standIn, if_pos hlong]
  rfl

/-- A buffer that is too short is replaced by zeros, and both lengths are reported. -/
theorem value_standIn_of_lt (hshort : buffer.length < needed) : (standIn op needed buffer).value =
    (List.replicate needed 0, some (.bufferSizeMismatch needed buffer.length)) := by
  rw [standIn, if_neg (by omega)]
  rfl

/-- What stands for a buffer is long enough. -/
theorem le_length_standIn (op : Collective) (needed : Nat) (buffer : Bytes) :
    needed ≤ (standIn op needed buffer).value.1.length := by
  rcases Nat.lt_or_ge buffer.length needed with hshort | hlong
  · rw [value_standIn_of_lt hshort, List.length_replicate]
  · rwa [value_standIn_of_le hlong]

/-- Measuring a call measures its two buffers. -/
theorem value_measure (me : Member) (request : Request) (input output : Bytes) :
    (measure me request input output).value =
      { input := (standIn request.collective (request.inputBytes me) input).value.1
        output := (standIn request.collective (request.outputBytes me) output).value.1
        outputStandsIn :=
          (standIn request.collective (request.outputBytes me) output).value.2.isSome
        mismatch := (standIn request.collective (request.inputBytes me) input).value.2.or
          (standIn request.collective (request.outputBytes me) output).value.2 } := by
  simp only [measure, Logged.value_bind, Logged.value_pure]

end StandIns

/-- The buffers that the ranks run a call with. -/
def footings (request : Request) (inputs outputs : Fin n → Bytes) (me : Fin n) : Footing :=
  (measure ⟨me, n⟩ request (inputs me) (outputs me)).value

/-- Whatever the callers' buffers are, a call runs with buffers that are long enough. -/
theorem supplied_footings (hroot : ∀ root ∈ request.root?, root < n)
    (inputs outputs : Fin n → Bytes) :
    request.Supplied (fun me => (footings request inputs outputs me).input)
      (fun me => (footings request inputs outputs me).output) where
  root := hroot
  inputs _ := le_length_standIn _ _ _
  outputs _ := le_length_standIn _ _ _

/-- A call runs with the callers' buffers when they are long enough. -/
theorem footings_of_supplied (hsupplied : request.Supplied inputs outputs) (me : Fin n) :
    footings request inputs outputs me = ⟨inputs me, outputs me, false, none⟩ := by
  rw [footings, value_measure, value_standIn_of_le (hsupplied.inputs me),
    value_standIn_of_le (hsupplied.outputs me)]
  rfl

/-- What a call comes back with, given what it came to with the buffers it ran with. -/
def restored (me : Member) (request : Request) (input output : Bytes) (outcome : Outcome) :
    Outcome :=
  let measured := measure me request input output
  { outcome with
    status :=
      match outcome.status, measured.value.mismatch with
      | .ok (), some error => .error error
      | status, _ => status
    output := if measured.value.outputStandsIn then output else outcome.output
    events := measured.events ++ outcome.events }

/-- A call whose root is in the group. -/
theorem perform_of_root {tuner : Tuner} {input output : Bytes}
    (hroot : ∀ root ∈ request.root?, root < tuner.me.size) :
    tuner.perform arithmetic request input output =
      (tuner.dispatch arithmetic request (measure tuner.me request input output).value.input
        (measure tuner.me request input output).value.output).bind fun outcome =>
          .done (restored tuner.me request input output outcome) := by
  have hnone : (request.root?.filter fun root => tuner.me.size ≤ root) = none := by
    rw [Option.filter_eq_none_iff]
    intro root hmem
    simpa using hroot root hmem
  unfold perform
  rw [hnone]
  rfl

/-- A root outside the group is refused at once. -/
theorem perform_of_invalid_root {tuner : Tuner} {input output : Bytes} {root : Nat}
    (hroot : root ∈ request.root?) (hlarge : tuner.me.size ≤ root) :
    tuner.perform arithmetic request input output =
      .done ⟨.error (.invalidRank root tuner.me.size), output, tuner, []⟩ := by
  have hsome : (request.root?.filter fun root => tuner.me.size ≤ root) = some root := by
    simp [Option.mem_def.mp hroot, hlarge]
  unfold perform
  rw [hsome]
  rfl

/-- A call with a root outside the group fails and changes nothing. -/
theorem perform_of_not_root {tuner : Tuner} {input output : Bytes}
    (hroot : ¬ ∀ root ∈ request.root?, root < tuner.me.size) :
    ∃ status, tuner.perform arithmetic request input output =
      .done { status, output, tuner, events := [] } := by
  obtain ⟨root, hmem, hlarge⟩ : ∃ root ∈ request.root?, ¬ root < tuner.me.size := by
    simpa using hroot
  exact ⟨_, perform_of_invalid_root hmem (Nat.le_of_not_lt hlarge)⟩

/-- **A call that all ranks make keeps them in lockstep and leaves their tuners in step.** It ends
with what comes of the buffers that it runs with, whatever the callers' buffers are. -/
theorem lockstep_perform_of_root (hn : 0 < n) (hinstep : InStep messages integers tuners)
    (hroot : ∀ root ∈ request.root?, root < n) (inputs outputs : Fin n → Bytes) (position : Nat) :
    ∃ (stop : Nat) (outcomes : Fin n → Outcome),
      Lockstep arithmetic refusals position
        (fun me => (tuners me).perform arithmetic request (inputs me) (outputs me)) stop
        (fun me => restored ⟨me, n⟩ request (inputs me) (outputs me) (outcomes me)) ∧
      InStep messages integers (fun me => (outcomes me).tuner) ∧
      Ends arithmetic refusals position stop request tuners
        (fun me => (footings request inputs outputs me).input)
        (fun me => (footings request inputs outputs me).output) outcomes
        (∀ me, (tuners me).CanDecompose messages integers request) := by
  have hsupplied := supplied_footings hroot inputs outputs
  obtain ⟨stop, outcomes, hlockstep, hafter, hends⟩ := @served_dispatch n arithmetic refusals
    request _ _ messages integers tuners hn hinstep hsupplied position
  have hperform (me : Fin n) := @perform_of_root arithmetic request (tuners me) (inputs me)
    (outputs me) (by rwa [hinstep.me])
  simp only [hinstep.me] at hperform
  rw [funext hperform]
  exact ⟨stop, outcomes, hlockstep.bind (.done stop _), hafter, hends⟩

/-- When the callers' buffers are long enough, they get what comes of a call. -/
theorem restored_of_supplied (hsupplied : request.Supplied inputs outputs) (me : Fin n)
    (outcome : Outcome) :
    (restored ⟨me, n⟩ request (inputs me) (outputs me) outcome).status = outcome.status ∧
      (restored ⟨me, n⟩ request (inputs me) (outputs me) outcome).output = outcome.output := by
  have hmeasure := footings_of_supplied hsupplied me
  unfold footings at hmeasure
  simp only [restored, hmeasure]
  refine ⟨?_, rfl⟩
  cases outcome.status <;> rfl

/-- A call that all ranks make keeps them in lockstep, also when its root is not in the group. When
the callers' buffers are long enough and the request is accepted, all ranks get its contents. -/
theorem lockstep_perform (hinstep : InStep messages integers tuners) (request : Request)
    (inputs outputs : Fin n → Bytes) (position : Nat) :
    ∃ (stop : Nat) (outcomes : Fin n → Outcome),
      Lockstep arithmetic refusals position
        (fun me => (tuners me).perform arithmetic request (inputs me) (outputs me)) stop outcomes ∧
      InStep messages integers (fun me => (outcomes me).tuner) ∧
      (request.Supplied inputs outputs → request.Accepted →
        (∀ last, stop = last + 1 → refusals last = none) →
        Delivers arithmetic request inputs outputs outcomes) := by
  rcases Nat.eq_zero_or_pos n with rfl | hn
  · refine ⟨position, fun me => me.elim0, ?_, hinstep.of_sameSetup (fun me => me.elim0)
      fun me => me.elim0, fun _ _ _ me => me.elim0⟩
    have hdone : (fun me : Fin 0 =>
        (tuners me).perform arithmetic request (inputs me) (outputs me)) =
          fun me => .done me.elim0 :=
      funext fun me => me.elim0
    rw [hdone]
    exact .done position _
  by_cases hroot : ∀ root ∈ request.root?, root < n
  · obtain ⟨stop, outcomes, hlockstep, hafter, hends⟩ := @lockstep_perform_of_root n arithmetic
      refusals request messages integers tuners hn hinstep hroot inputs outputs position
    refine ⟨stop, _, hlockstep, hafter, fun hsupplied haccepted hlast me => ?_⟩
    have hdelivers := (hends.of_last_served haccepted hlast).1 me
    simp only [footings_of_supplied hsupplied] at hdelivers
    obtain ⟨hstatus, houtput⟩ := restored_of_supplied hsupplied me (outcomes me)
    exact ⟨hstatus.trans hdelivers.1, houtput.trans hdelivers.2⟩
  · choose statuses hperform using fun me => @perform_of_not_root arithmetic request (tuners me)
      (inputs me) (outputs me) (by rwa [hinstep.me])
    refine ⟨position, fun me => ⟨statuses me, outputs me, tuners me, []⟩, ?_, hinstep,
      fun hsupplied => absurd hsupplied.root hroot⟩
    rw [funext hperform]
    exact .done position _

end Group

end CollectiveTuner.Tuner
