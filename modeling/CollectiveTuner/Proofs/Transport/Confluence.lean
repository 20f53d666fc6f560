import CollectiveTuner.Proofs.Transport.History

/-!
# Schedules do not matter

Two ranks that can both take a step can take them in either order, with the same answers and
the same result. So all runs of a group that go on as long as possible give every rank the same
history and end in the same state, and every run can be continued to that end.
-/

namespace CollectiveTuner.Transport

namespace Network

variable {n : Nat}

/-- All endpoints are still there. -/
def IsOpen (network : Network n) : Prop :=
  ∀ rank, network.isPresent rank = true

/-- A rank may take this action now. -/
def Allows (network : Network n) (me : Fin n) : Action n → Prop
  | ⟨.send dest _, delivered⟩ => network.isPresent dest = delivered
  | ⟨.receive source, some message⟩ => (network.queue source me).head? = some message
  | ⟨.receive source, none⟩ => network.queue source me = [] ∧ network.isPresent source = false

/-- The messages under way after an action of rank `me`. -/
def after (network : Network n) (me : Fin n) : Action n → Network n
  | ⟨.send dest message, true⟩ => network.push me dest message
  | ⟨.send _ _, false⟩ => network
  | ⟨.receive source, some _⟩ => network.pop source me
  | ⟨.receive _, none⟩ => network

/-- Serving a request is taking an allowed action. -/
theorem serve_eq_some_iff {network next : Network n} {me : Fin n} {action : Action n} :
    network.serve me action.1 = some (action.2, next) ↔
      network.Allows me action ∧ next = network.after me action := by
  obtain ⟨op, answer⟩ := action
  cases op with
  | send dest message =>
    cases hpresent : network.isPresent dest <;> cases answer <;>
      simp [serve, Allows, after, hpresent, eq_comm]
  | receive source =>
    cases hqueue : network.queue source me <;> cases hpresent : network.isPresent source <;>
      cases answer <;> simp [serve, Allows, after, hqueue, hpresent, eq_comm]

/-- No action removes an endpoint. -/
@[simp] theorem isPresent_after (network : Network n) (me rank : Fin n) (action : Action n) :
    (network.after me action).isPresent rank = network.isPresent rank := by
  obtain ⟨op, answer⟩ := action
  cases op <;> cases answer <;> rfl

/-- A network in which no rank has gone stays so. -/
theorem IsOpen.after {network : Network n} (hopen : network.IsOpen) (me : Fin n)
    (action : Action n) : (network.after me action).IsOpen := by
  intro rank
  rw [isPresent_after]
  exact hopen rank

/-- In an idle network, no rank has gone. -/
theorem isOpen_idle : (idle n).IsOpen :=
  fun rank => isPresent_idle rank

/-- What a rank may do it may still do after another rank has acted. A message that arrives in
between goes to the end of the queue. -/
theorem Allows.after {network : Network n} (hopen : network.IsOpen) {me other : Fin n}
    {action action' : Action n} (hallows : network.Allows me action) (hne : me ≠ other) :
    (network.after other action').Allows me action := by
  obtain ⟨op, answer⟩ := action
  obtain ⟨op', answer'⟩ := action'
  cases op with
  | send dest message => simpa [Allows] using hallows
  | receive source =>
    cases answer with
    | none =>
      obtain ⟨_, hgone⟩ := hallows
      rw [hopen source] at hgone
      cases hgone
    | some message =>
      have hhead : (network.queue source me).head? = some message := hallows
      cases op' with
      | send dest' message' =>
        cases answer' <;> simp [Allows, Network.after, queue_push, List.head?_append, hhead]
      | receive source' =>
        cases answer' <;> simp [Allows, Network.after, queue_pop, hne, hhead]

/-- Allowed actions of two ranks have the same effect in either order. -/
theorem after_comm {network : Network n} {me other : Fin n} {action action' : Action n}
    (hallows : network.Allows me action) (hallows' : network.Allows other action')
    (hne : me ≠ other) :
    (network.after other action').after me action =
      (network.after me action).after other action' := by
  obtain ⟨op, answer⟩ := action
  obtain ⟨op', answer'⟩ := action'
  ext source dest
  · cases op with
    | send dest' message =>
      cases op' with
      | send dest'' message' =>
        cases answer <;> cases answer' <;> simp only [after, queue_push]
        grind
      | receive source' =>
        cases answer <;> cases answer' <;> simp only [after, queue_push, queue_pop]
        have hhead := List.ne_nil_of_mem (List.mem_of_mem_head? hallows')
        grind
    | receive source' =>
      cases op' with
      | send dest' message =>
        cases answer <;> cases answer' <;> simp only [after, queue_push, queue_pop]
        have hhead := List.ne_nil_of_mem (List.mem_of_mem_head? hallows)
        grind
      | receive source'' =>
        cases answer <;> cases answer' <;> simp only [after, queue_pop]
        grind
  · simp

end Network

namespace GroupState

variable {n : Nat} {α : Type}

/-- After an action, the endpoints are still there. -/
theorem Acts.isOpen {before after : GroupState n α} {me : Fin n} {action : Action n}
    (hacts : before.Acts me action after) (hopen : before.network.IsOpen) :
    after.network.IsOpen := by
  obtain ⟨next, network, _, hserve, rfl⟩ := hacts
  obtain ⟨_, rfl⟩ := Network.serve_eq_some_iff.mp hserve
  exact hopen.after me action

/-- **The diamond.** Actions of two ranks that are both possible can be taken one after the
other, in either order and with the same result. -/
theorem Acts.diamond {before first second : GroupState n α} {me other : Fin n}
    {action action' : Action n} (hopen : before.network.IsOpen) (hne : me ≠ other)
    (hfirst : before.Acts me action first) (hsecond : before.Acts other action' second) :
    ∃ joined, first.Acts other action' joined ∧ second.Acts me action joined := by
  obtain ⟨next, network, hprocess, hserve, rfl⟩ := hfirst
  obtain ⟨next', network', hprocess', hserve', rfl⟩ := hsecond
  obtain ⟨hallows, rfl⟩ := Network.serve_eq_some_iff.mp hserve
  obtain ⟨hallows', rfl⟩ := Network.serve_eq_some_iff.mp hserve'
  have hnetwork := Network.after_comm hallows hallows' hne
  refine ⟨_, ⟨next', (before.network.after me action).after other action', ?_, ?_, rfl⟩,
    ⟨next, (before.network.after other action').after me action, ?_, ?_, ?_⟩⟩
  · rw [← hprocess']
    exact get_set_of_ne _ _ hne.symm
  · exact Network.serve_eq_some_iff.mpr ⟨hallows'.after hopen hne.symm, rfl⟩
  · rw [← hprocess]
    exact get_set_of_ne _ _ hne
  · exact Network.serve_eq_some_iff.mpr ⟨hallows.after hopen hne, rfl⟩
  · have hval : (me : Nat) ≠ other := fun h => hne (Fin.ext h)
    simp only [hnetwork, Vector.set_comm _ _ hval]

/-- A run to the end contains every action that is possible at its start, and the action can
be taken first. -/
theorem Runs.extract {before between after : GroupState n α} {me : Fin n} {action : Action n}
    {histories : Fin n → History n} (hopen : before.network.IsOpen)
    (hacts : before.Acts me action between) (hruns : before.Runs histories after)
    (hend : after.AtRest) :
    ∃ rest, histories me = action :: rest ∧
      between.Runs (Function.update histories me rest) after := by
  induction hruns generalizing between with
  | rest state => exact absurd hacts (hend me action between)
  | @act before state after other action' histories hacts' hruns ih =>
    by_cases hne : me = other
    · subst hne
      obtain ⟨rfl, rfl⟩ := hacts.unique hacts'
      exact ⟨histories me, by simp, by simpa using hruns⟩
    · obtain ⟨joined, hjoined, hjoined'⟩ := hacts.diamond hopen hne hacts'
      obtain ⟨rest, hhistory, hrest⟩ := ih (hacts'.isOpen hopen) hjoined' hend
      refine ⟨rest, by simpa [Function.update_of_ne hne] using hhistory, ?_⟩
      -- The other rank's action comes first again, now after the extracted one.
      have hruns' := Runs.act hjoined hrest
      rw [Function.update_of_ne (Ne.symm hne)] at hruns'
      rwa [Function.update_comm hne] at hruns'

/-- **Schedule independence.** Two runs from the same state that go on until no rank can take a
step give every rank the same history and end in the same state. -/
theorem Runs.confluent {before first second : GroupState n α}
    {histories histories' : Fin n → History n} (hopen : before.network.IsOpen)
    (hfirst : before.Runs histories first) (hfirstEnd : first.AtRest)
    (hsecond : before.Runs histories' second) (hsecondEnd : second.AtRest) :
    histories = histories' ∧ first = second := by
  induction hfirst generalizing histories' with
  | rest state =>
    cases hsecond with
    | rest => exact ⟨rfl, rfl⟩
    | act hacts _ => exact absurd hacts (hfirstEnd _ _ _)
  | @act before between first me action histories hacts _ ih =>
    obtain ⟨rest, hhistory, hrest⟩ := hsecond.extract hopen hacts hsecondEnd
    obtain ⟨rfl, rfl⟩ := ih (hacts.isOpen hopen) hfirstEnd hrest
    refine ⟨?_, rfl⟩
    rw [Function.update_self, Function.update_idem, ← hhistory, Function.update_eq_self]

/-- A run that is cut short can go on to the end of any run from the same state. -/
theorem Runs.reaches_end {before between after : GroupState n α}
    {histories histories' : Fin n → History n} (hopen : before.network.IsOpen)
    (hpart : before.Runs histories between) (hruns : before.Runs histories' after)
    (hend : after.AtRest) : between.Reaches after := by
  induction hpart generalizing histories' with
  | rest => exact ⟨_, hruns⟩
  | act hacts _ ih =>
    obtain ⟨rest, _, hrest⟩ := hruns.extract hopen hacts hend
    exact ih (hacts.isOpen hopen) hrest

/-- No schedule runs forever, because each state shrinks to the next one. -/
theorem no_endless_steps (state : GroupState n α) :
    ¬ ∃ states : Nat → GroupState n α, states 0 = state ∧
      ∀ k, (states k).Steps (states (k + 1)) := by
  rintro ⟨states, -, hsteps⟩
  have hshrinks : ∀ k, (states (k + 1)).Shrinks (states k) := fun k => shrinks_of_steps (hsteps k)
  exact (wellFounded_iff_isEmpty_descending_chain.mp shrinks_wellFounded).false ⟨states, hshrinks⟩

end GroupState

end CollectiveTuner.Transport
