import CollectiveTuner.Proofs.Tuner.Calls

/-!
# Groups of tuners between calls

The tuners of a group start from the same configuration on the same host, and then all ranks make
the same calls and selections. Between calls they are in step, whatever earlier calls have left in
scratch space, so every call leaves what the native operation leaves.
-/

namespace CollectiveTuner.Tuner

open Native Scratch Request Transport
open Reduction (firstOperand)

variable {n : Nat} {arithmetic : FloatArithmetic} {host : Host} {configuration : Configuration}
  {messages integers : Nat} {tuners : Fin n → Tuner} {request : Request}
  {inputs outputs : Fin n → Bytes}

/-! ### Starting -/

/-- What all tuners of a group start with. -/
def equipment (host : Host) (configuration : Configuration) :
    Except Error (Arena × SelectionContext × Catalog) := do
  let arena ← Arena.allocate host.refusedBytes configuration.messageBytes.value
    configuration.integerBytes.value
  let prepared ← ((SelectionContext.ofConfiguration configuration).prepare host
    Catalog.default).run.value
  pure (arena, prepared)

/-- The value of two fallible actions in sequence is that of the second one on the value of the
first. -/
theorem value_run_bind {α β : Type} (first : ExceptT Error Logged α)
    (next : α → ExceptT Error Logged β) :
    (first >>= next).run.value = first.run.value >>= fun value => (next value).run.value := by
  obtain ⟨value, events⟩ := first
  cases value <;> rfl

/-- Logging the failure of an activity does not change its value. -/
theorem value_run_failing {α : Type} (me : Member) (activity : String)
    (result : ExceptT Error Logged α) :
    (failing me activity result).run.value = result.run.value := by
  obtain ⟨value, events⟩ := result
  cases value <;> rfl

/-- Tuners that are started alike differ in their place, and in whether they record. -/
theorem value_start (host : Host) (me : Member) (configuration : Configuration) :
    (start host me configuration).run.value =
      (equipment host configuration).map fun (arena, context, catalog) =>
        { me, catalog, arena, context
          recorder :=
            if configuration.recordAlgorithms && me.rank == 0 then some Recorder.empty else none
          configuration } := by
  change (failing me _ _ >>= _ : ExceptT Error Logged Tuner).run.value = _
  rw [value_run_bind, value_run_failing]
  unfold equipment
  change (Arena.allocate host.refusedBytes configuration.messageBytes.value
    configuration.integerBytes.value >>= _) = _
  cases Arena.allocate host.refusedBytes configuration.messageBytes.value
    configuration.integerBytes.value with
  | error => rfl
  | ok arena =>
    change (failing me _ _ >>= _ : ExceptT Error Logged Tuner).run.value = _
    rw [value_run_bind, value_run_failing]
    cases ((SelectionContext.ofConfiguration configuration).prepare host
      Catalog.default).run.value <;> rfl

/-- What is equipped is allocated and prepared. -/
theorem parts_of_equipment {arena : Arena} {prepared : SelectionContext × Catalog}
    (hequipment : equipment host configuration = .ok (arena, prepared)) :
    Arena.allocate host.refusedBytes configuration.messageBytes.value
        configuration.integerBytes.value = .ok arena ∧
      ((SelectionContext.ofConfiguration configuration).prepare host
        Catalog.default).run.value = .ok prepared := by
  unfold equipment at hequipment
  cases hallocate : Arena.allocate host.refusedBytes configuration.messageBytes.value
      configuration.integerBytes.value with
  | error error =>
    rw [hallocate] at hequipment
    cases hequipment
  | ok arena =>
    rw [hallocate] at hequipment
    cases hprepare : ((SelectionContext.ofConfiguration configuration).prepare host
        Catalog.default).run.value with
    | error error =>
      rw [hprepare] at hequipment
      cases hequipment
    | ok prepared =>
      rw [hprepare] at hequipment
      cases hequipment
      exact ⟨rfl, rfl⟩

/-- What a new tuner is made of. -/
theorem exists_of_start {me : Member} {tuner : Tuner}
    (hstart : (start host me configuration).run.value = .ok tuner) :
    ∃ (arena : Arena) (context : SelectionContext) (catalog : Catalog),
      Arena.allocate host.refusedBytes configuration.messageBytes.value
        configuration.integerBytes.value = .ok arena ∧
      ((SelectionContext.ofConfiguration configuration).prepare host
        Catalog.default).run.value = .ok (context, catalog) ∧
      tuner =
        { me, catalog, arena, context
          recorder :=
            if configuration.recordAlgorithms && me.rank == 0 then some Recorder.empty else none
          configuration } := by
  rw [value_start] at hstart
  cases hequipment : equipment host configuration with
  | error error =>
    rw [hequipment] at hstart
    cases hstart
  | ok equipped =>
    rw [hequipment] at hstart
    obtain ⟨hallocate, hprepare⟩ := parts_of_equipment hequipment
    exact ⟨_, _, _, hallocate, hprepare, (Except.ok.inj hstart).symm⟩

/-- New tuners are in step. -/
theorem inStep_of_start
    (hstart : ∀ me : Fin n, (start host ⟨me, n⟩ configuration).run.value = .ok (tuners me)) :
    InStep configuration.messageBytes.value (configuration.integerBytes.value / countSize)
      tuners := by
  choose arenas contexts catalogs hallocate hprepare htuner using fun me =>
    exists_of_start (hstart me)
  have hsame (rank other : Fin n) : contexts rank = contexts other ∧
      catalogs rank = catalogs other :=
    Prod.mk.inj (Except.ok.inj ((hprepare rank).symm.trans (hprepare other)))
  constructor
  · intro rank
    rw [htuner]
  · intro rank other
    rw [htuner, htuner]
    exact (hsame rank other).2
  · intro rank other
    rw [htuner, htuner]
    exact (hsame rank other).1
  · intro rank other
    rw [htuner, htuner]
  · intro rank
    rw [htuner]
    exact Arena.ready_of_allocate (hallocate rank)

/-! ### Serving calls -/

/-- A call that all ranks make comes to an end on every schedule. -/
theorem settles_perform (arithmetic : FloatArithmetic) (hinstep : InStep messages integers tuners)
    (request : Request) (inputs outputs : Fin n → Bytes) :
    ∃ outcomes : Fin n → Outcome,
      Settles (fun me => run arithmetic me
        ((tuners me).perform arithmetic request (inputs me) (outputs me))) outcomes ∧
      InStep messages integers (fun me => (outcomes me).tuner) ∧
      (request.Supplied inputs outputs → request.Accepted →
        Delivers arithmetic request inputs outputs outcomes) := by
  obtain ⟨_, outcomes, hlockstep, hafter, hdelivers⟩ := @lockstep_perform n arithmetic
    (fun _ => none) messages integers tuners hinstep request inputs outputs 0
  exact ⟨outcomes, hlockstep.settles fun _ => rfl, hafter, fun hsupplied haccepted =>
    hdelivers hsupplied haccepted fun _ _ => rfl⟩

/-- A registered algorithm can be made active. -/
theorem setAlgorithm_of_registered (tuner : Tuner) {op : Collective} {id : AlgorithmId}
    (hid : (op.choices.any fun choice => choice.id == id) = true) :
    tuner.setAlgorithm op id =
      .ok { tuner with catalog := ⟨Collective.update tuner.catalog.active op id⟩ } := by
  rw [setAlgorithm, Catalog.activate_eq_ok_iff.mpr ⟨hid, rfl⟩]
  rfl

/-- Any other algorithm is refused. -/
theorem setAlgorithm_of_not_registered (tuner : Tuner) {op : Collective} {id : AlgorithmId}
    (hid : ¬ (op.choices.any fun choice => choice.id == id) = true) :
    ∃ error, tuner.setAlgorithm op id = .error error := by
  unfold setAlgorithm
  cases hactivate : tuner.catalog.activate op id with
  | error error => exact ⟨error, rfl⟩
  | ok catalog => exact absurd (Catalog.activate_eq_ok_iff.mp hactivate).1 hid

/-- Making an algorithm active changes the catalog only. -/
theorem exists_of_setAlgorithm {tuner after : Tuner} {op : Collective} {id : AlgorithmId}
    (hafter : tuner.setAlgorithm op id = .ok after) :
    ∃ catalog, tuner.catalog.activate op id = .ok catalog ∧ after = { tuner with catalog } := by
  unfold setAlgorithm at hafter
  cases hactivate : tuner.catalog.activate op id with
  | error error =>
    rw [hactivate] at hafter
    cases hafter
  | ok catalog =>
    rw [hactivate] at hafter
    exact ⟨catalog, rfl, (Except.ok.inj hafter).symm⟩

/-- Making the same algorithm active keeps tuners in step. -/
theorem InStep.setAlgorithm (hinstep : InStep messages integers tuners) {op : Collective}
    {id : AlgorithmId} {after : Fin n → Tuner}
    (hafter : ∀ me, (tuners me).setAlgorithm op id = .ok (after me)) :
    InStep messages integers after := by
  choose catalogs hcatalogs hafter using fun me => exists_of_setAlgorithm (hafter me)
  obtain rfl : after = fun me => { tuners me with catalog := catalogs me } := funext hafter
  refine ⟨hinstep.me, fun rank other => ?_, hinstep.context, hinstep.configuration, hinstep.arena⟩
  have hrank := hcatalogs rank
  rw [hinstep.catalog rank other, hcatalogs other] at hrank
  exact (Except.ok.inj hrank).symm

/-- The tuners that the ranks of a group have at some point between calls. All ranks start on
the same host with the same configuration and make the same calls and selections, each call with any
buffers. -/
inductive Reachable (arithmetic : FloatArithmetic) (host : Host) (configuration : Configuration) :
    (Fin n → Tuner) → Prop
  | started {tuners : Fin n → Tuner}
      (hstart : ∀ me : Fin n, (start host ⟨me, n⟩ configuration).run.value = .ok (tuners me)) :
      Reachable arithmetic host configuration tuners
  | selected {tuners after : Fin n → Tuner} (op : Collective) (id : AlgorithmId)
      (hbefore : Reachable arithmetic host configuration tuners)
      (hafter : ∀ me, (tuners me).setAlgorithm op id = .ok (after me)) :
      Reachable arithmetic host configuration after
  | called {tuners : Fin n → Tuner} {outcomes : Fin n → Outcome} (request : Request)
      (inputs outputs : Fin n → Bytes)
      (hbefore : Reachable arithmetic host configuration tuners)
      (hcall : EndsWith (fun me => run arithmetic me
        ((tuners me).perform arithmetic request (inputs me) (outputs me))) outcomes) :
      Reachable arithmetic host configuration fun me => (outcomes me).tuner

/-- Between calls the tuners of a group are in step. -/
theorem inStep_of_reachable (hreachable : Reachable arithmetic host configuration tuners) :
    InStep configuration.messageBytes.value (configuration.integerBytes.value / countSize)
      tuners := by
  induction hreachable with
  | started hstart => exact inStep_of_start hstart
  | selected _ _ _ hafter ih => exact ih.setAlgorithm hafter
  | called request inputs outputs _ hcall ih =>
    obtain ⟨outcomes, hsettles, hafter, _⟩ := settles_perform arithmetic ih request inputs outputs
    rw [hsettles.eq_of_endsWith hcall]
    exact hafter

/-- With nothing configured a group starts. -/
theorem exists_started (files : Files) (n : Nat) : ∃ tuners : Fin n → Tuner, ∀ me : Fin n,
    (start files.host ⟨me, n⟩ Configuration.default).run.value = .ok (tuners me) :=
  ⟨_, fun _ => rfl⟩

/-- With nothing configured a group can choose any registered algorithm, and that one is selected
from then on. -/
theorem exists_chosen (files : Files) (n : Nat) {op : Collective} {id : AlgorithmId}
    (hid : (op.choices.any fun choice => choice.id == id) = true) :
    ∃ started chosen : Fin n → Tuner,
      (∀ me : Fin n,
        (start files.host ⟨me, n⟩ Configuration.default).run.value = .ok (started me)) ∧
      (∀ me, (started me).setAlgorithm op id = .ok (chosen me)) ∧
      ∀ me size, ((chosen me).select op size).value = id :=
  ⟨_, _, fun _ => rfl, fun _ => setAlgorithm_of_registered _ hid,
    fun _ _ => Collective.update_same _ _ _⟩

/-- With nothing configured a group can make any registered algorithm active. -/
theorem exists_reachable_selected (arithmetic : FloatArithmetic) (files : Files) (n : Nat)
    {op : Collective} {id : AlgorithmId}
    (hid : (op.choices.any fun choice => choice.id == id) = true) :
    ∃ tuners : Fin n → Tuner, Reachable arithmetic files.host Configuration.default tuners ∧
      ∀ me, (tuners me).catalog.active op = id := by
  obtain ⟨started, hstart⟩ := exists_started files n
  have hselect (me : Fin n) := setAlgorithm_of_registered (started me) hid
  exact ⟨_, .selected op id (.started hstart) hselect, fun _ => Collective.update_same _ _ _⟩

/-! ### Calls and native operations -/

/-- The native operation of a request that is accepted. -/
theorem settles_native (hn : 0 < n) (hsupplied : request.Supplied inputs outputs)
    (haccepted : request.Accepted) :
    Settles (fun me => answer arithmetic me ⟨request.primitive, inputs me, outputs me⟩) fun me =>
      ⟨.ok (), (outputs me).overwrite 0 (request.contents arithmetic inputs outputs me)⟩ :=
  ((serves_primitive hn hsupplied).together haccepted).settles_answer

/-- A request whose native operation succeeds somewhere is accepted. -/
theorem accepted_of_endsWith (hsupplied : request.Supplied inputs outputs) {replies : Fin n → Reply}
    (hnative : EndsWith (fun me => answer arithmetic me ⟨request.primitive, inputs me, outputs me⟩)
      replies) {me : Fin n} (hok : (replies me).status = .ok ()) : request.Accepted := by
  by_contra hrejected
  obtain ⟨error, htogether⟩ :=
    (@serves_primitive n arithmetic request _ _ me.pos hsupplied).rejected hrejected
  rw [htogether.settles_answer.eq_of_endsWith hnative] at hok
  cases hok

/-- **A call leaves what the native operation leaves.** At every point between calls, when the
native operation of a request succeeds on every rank, the call of the tuners comes to an end on
every schedule, succeeds on every rank, and leaves every output as the native operation does. It
does so for every algorithm that may be selected, and whether its decomposition succeeds or
the native operation runs after it. -/
theorem perform_matches_native (hreachable : Reachable arithmetic host configuration tuners)
    (hsupplied : request.Supplied inputs outputs) {replies : Fin n → Reply}
    (hnative : EndsWith (fun me => answer arithmetic me ⟨request.primitive, inputs me, outputs me⟩)
      replies) (hok : ∀ me, (replies me).status = .ok ()) :
    ∃ outcomes : Fin n → Outcome,
      Settles (fun me => run arithmetic me
        ((tuners me).perform arithmetic request (inputs me) (outputs me))) outcomes ∧
      ∀ me, (outcomes me).status = .ok () ∧ (outcomes me).output = (replies me).output := by
  obtain ⟨outcomes, hsettles, _, hdelivers⟩ :=
    settles_perform arithmetic (inStep_of_reachable hreachable) request inputs outputs
  refine ⟨outcomes, hsettles, fun me => ?_⟩
  have haccepted := accepted_of_endsWith hsupplied hnative (hok me)
  rw [(settles_native me.pos hsupplied haccepted).eq_of_endsWith hnative]
  exact hdelivers hsupplied haccepted me

/-- Two ranks add up their elements by a reduce and a bcast. -/
theorem perform_matches_native_sum :
    ∃ (tuners : Fin 2 → Tuner) (outcomes : Fin 2 → Outcome),
      (∀ me, (tuners me).catalog.active .allreduce = 1) ∧
      Settles (fun me => run firstOperand me ((tuners me).perform firstOperand
        (.allreduce 1 .uint8 .sum) (if me = 0 then [1] else [2]) [0, 7])) outcomes ∧
      ∀ me, (outcomes me).status = .ok () ∧ (outcomes me).output = [3, 7] := by
  obtain ⟨tuners, hreachable, hactive⟩ := exists_reachable_selected
    firstOperand ⟨fun _ => .error .notFound, fun _ => .error .notFound⟩ 2
    (show (Collective.allreduce.choices.any fun choice => choice.id == 1) = true by decide)
  have hsupplied : (Request.allreduce 1 .uint8 .sum).Supplied
      (fun me : Fin 2 => if me = 0 then [1] else [2]) (fun _ => [0, 7]) :=
    ⟨by decide, by decide, by decide⟩
  have haccepted : (Request.allreduce 1 .uint8 .sum).Accepted :=
    show Reduction.Supported .uint8 .sum by decide
  obtain ⟨outcomes, hsettles, houtcomes⟩ := perform_matches_native hreachable hsupplied
    (settles_native (by decide) hsupplied haccepted).endsWith fun _ => rfl
  refine ⟨tuners, outcomes, hactive, hsettles, fun me =>
    ⟨(houtcomes me).1, (houtcomes me).2.trans ?_⟩⟩
  revert me
  decide

/-- **A call that only moves data never fails.** At every point between calls, the call of the
tuners and the native operation come to an end on every schedule and succeed on every rank, and
they leave the same outputs. -/
theorem movement_matches_native (hn : 0 < n)
    (hreachable : Reachable arithmetic host configuration tuners) (hmoves : ¬ request.Combines)
    (hsupplied : request.Supplied inputs outputs) :
    ∃ (outcomes : Fin n → Outcome) (replies : Fin n → Reply),
      Settles (fun me => run arithmetic me
        ((tuners me).perform arithmetic request (inputs me) (outputs me))) outcomes ∧
      Settles (fun me => answer arithmetic me ⟨request.primitive, inputs me, outputs me⟩) replies ∧
      ∀ me, (outcomes me).status = .ok () ∧ (replies me).status = .ok () ∧
        (outcomes me).output = (replies me).output := by
  have haccepted := accepted_of_not_combines hmoves
  obtain ⟨outcomes, hsettles, _, hdelivers⟩ :=
    settles_perform arithmetic (inStep_of_reachable hreachable) request inputs outputs
  have hcontents := hdelivers hsupplied haccepted
  exact ⟨outcomes, _, hsettles, settles_native hn hsupplied haccepted,
    fun me => ⟨(hcontents me).1, rfl, (hcontents me).2⟩⟩

/-- Three ranks get four bytes of the last one by a scatter of padded blocks and an allgather. -/
theorem movement_matches_native_bcast :
    ∃ (tuners : Fin 3 → Tuner) (outcomes : Fin 3 → Outcome),
      (∀ me, (tuners me).catalog.active .bcast = 2) ∧
      Settles (fun me => run firstOperand me ((tuners me).perform firstOperand
        (.bcast 4 .uint8 2) [] (if me = 2 then [1, 2, 3, 4, 5] else [0, 0, 0, 0, 9]))) outcomes ∧
      ∀ me, (outcomes me).status = .ok () ∧
        (outcomes me).output = if me = 2 then [1, 2, 3, 4, 5] else [1, 2, 3, 4, 9] := by
  obtain ⟨tuners, hreachable, hactive⟩ := exists_reachable_selected
    firstOperand ⟨fun _ => .error .notFound, fun _ => .error .notFound⟩ 3
    (show (Collective.bcast.choices.any fun choice => choice.id == 2) = true by decide)
  have hmoves : ¬ (Request.bcast 4 .uint8 2).Combines := id
  have hsupplied : (Request.bcast 4 .uint8 2).Supplied (fun _ : Fin 3 => [])
      (fun me => if me = 2 then [1, 2, 3, 4, 5] else [0, 0, 0, 0, 9]) :=
    ⟨by decide, by decide, by decide⟩
  obtain ⟨outcomes, replies, hsettles, hnative, hsame⟩ :=
    movement_matches_native (by decide) hreachable hmoves hsupplied
  have hreplies := hnative.unique (settles_native (by decide) hsupplied trivial)
  refine ⟨tuners, outcomes, hactive, hsettles, fun me => ⟨(hsame me).1, ?_⟩⟩
  rw [(hsame me).2.2, hreplies]
  revert me
  decide

end CollectiveTuner.Tuner
