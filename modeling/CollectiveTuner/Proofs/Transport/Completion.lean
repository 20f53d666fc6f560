import CollectiveTuner.Proofs.Transport.Confluence

/-!
# Groups that settle

`Settles programs values` says that programs run together end with these values and leave
nothing under way, whatever the schedule. Because schedules do not matter, one run that ends so
shows it. Programs that settle can be put one after the other, and programs that first send and
then receive settle when the messages match pair by pair.
-/

namespace CollectiveTuner.Transport

variable {n : Nat} {α β : Type}

namespace GroupState

/-- A group that has ended with these values, with nothing under way. -/
def closing (values : Fin n → α) : GroupState n α :=
  opening fun me => .done (values me)

/-- Groups with the same network and the same processes are the same. -/
theorem ext_get {first second : GroupState n α} (hnetwork : first.network = second.network)
    (hprocesses : ∀ me, first.processes.get me = second.processes.get me) : first = second := by
  obtain ⟨network, processes⟩ := first
  obtain ⟨network', processes'⟩ := second
  simp only [GroupState.mk.injEq]
  refine ⟨hnetwork, Vector.ext fun i hi => ?_⟩
  simpa [Vector.get_eq_getElem] using hprocesses ⟨i, hi⟩

/-- At the opening, no message is under way. -/
@[simp] theorem network_opening (programs : Fin n → RankProgram n α) :
    (opening programs).network = Network.idle n := rfl

/-- At the opening, each process has its program before it. -/
@[simp] theorem get_opening (programs : Fin n → RankProgram n α) (me : Fin n) :
    (opening programs).processes.get me = programs me := by
  simp [opening]

/-- At the opening, no rank has gone. -/
theorem isOpen_opening (programs : Fin n → RankProgram n α) :
    (opening programs).network.IsOpen :=
  Network.isOpen_idle

/-- At the closing, every process has finished. -/
theorem finished_closing (values : Fin n → α) : (closing values).Finished :=
  fun me => ⟨values me, get_opening _ me⟩

/-- The same messages under way, and every program followed by more work. -/
def andThen (state : GroupState n α) (next : Fin n → α → RankProgram n β) : GroupState n β :=
  { network := state.network,
    processes := Vector.ofFn fun me => (state.processes.get me).bind (next me) }

/-- Work that comes later does not change a step. -/
theorem Acts.andThen {before after : GroupState n α} {me : Fin n} {action : Action n}
    (hacts : before.Acts me action after) (next : Fin n → α → RankProgram n β) :
    (before.andThen next).Acts me action (after.andThen next) := by
  obtain ⟨rest, network, hprocess, hserve, rfl⟩ := hacts
  refine ⟨fun answer => (rest answer).bind (next me), network, ?_, hserve, ?_⟩
  · simp [GroupState.andThen, hprocess, Program.bind]
  · refine ext_get rfl fun rank => ?_
    by_cases hrank : rank = me
    · subst hrank
      simp [GroupState.andThen, get_set_self]
    · simp [GroupState.andThen, get_set_of_ne _ _ hrank]

/-- Work that comes later does not change a run. -/
theorem Runs.andThen {before after : GroupState n α} {histories : Fin n → History n}
    (hruns : before.Runs histories after) (next : Fin n → α → RankProgram n β) :
    (before.andThen next).Runs histories (after.andThen next) := by
  induction hruns with
  | rest => exact .rest _
  | act hacts _ ih => exact .act (hacts.andThen next) ih

/-- Opening programs followed by more work is adding the work to their opening. -/
theorem opening_andThen (programs : Fin n → RankProgram n α)
    (next : Fin n → α → RankProgram n β) :
    (opening programs).andThen next = opening fun me => (programs me).bind (next me) :=
  ext_get rfl fun me => by simp [GroupState.andThen]

end GroupState

open GroupState

/-- Run together from idle channels, the programs end with these values and leave nothing under
way: from whatever state a schedule leads to, the group comes to this end. -/
def Settles (programs : Fin n → RankProgram n α) (values : Fin n → α) : Prop :=
  ∀ state, (opening programs).Reaches state → state.Reaches (closing values)

/-- One run to the end shows that all runs come to this end. -/
theorem settles_iff_reaches {programs : Fin n → RankProgram n α} {values : Fin n → α} :
    Settles programs values ↔ (opening programs).Reaches (closing values) := by
  constructor
  · intro hsettles
    exact hsettles _ (.refl _)
  · rintro ⟨histories, hruns⟩ state ⟨_, hpart⟩
    exact hpart.reaches_end (isOpen_opening _) hruns (finished_closing values).atRest

/-- A state that a group with an end can reach is at rest only at that end. -/
theorem Settles.eq_closing {programs : Fin n → RankProgram n α} {values : Fin n → α}
    (hsettles : Settles programs values) {state : GroupState n α}
    (hreaches : (opening programs).Reaches state) (hrest : state.AtRest) :
    state = closing values := by
  obtain ⟨_, hruns⟩ := hsettles state hreaches
  cases hruns with
  | rest => rfl
  | act hacts _ => exact absurd hacts (hrest _ _ _)

/-- Programs end with one value for each rank only. -/
theorem Settles.unique {programs : Fin n → RankProgram n α} {values values' : Fin n → α}
    (hfirst : Settles programs values) (hsecond : Settles programs values') :
    values = values' := by
  have hclosing := hfirst.eq_closing (settles_iff_reaches.mp hsecond)
    (finished_closing values').atRest
  funext me
  have hprocess := congrArg (fun state => state.processes.get me) hclosing
  simp only [closing, get_opening, Program.done.injEq] at hprocess
  exact hprocess.symm

/-- Some run of the programs, together from idle channels, ends with these values. -/
def EndsWith (programs : Fin n → RankProgram n α) (values : Fin n → α) : Prop :=
  ∃ state, (opening programs).Reaches state ∧ ∀ me, state.processes.get me = .done (values me)

/-- When one run ends with these values, the programs that settle do so with them. -/
theorem Settles.eq_of_endsWith {programs : Fin n → RankProgram n α} {values values' : Fin n → α}
    (hsettles : Settles programs values) (hends : EndsWith programs values') :
    values' = values := by
  obtain ⟨state, hreaches, hdone⟩ := hends
  have hfinished : state.Finished := fun me => ⟨values' me, hdone me⟩
  have hclosing := hsettles.eq_closing hreaches hfinished.atRest
  funext me
  have hprocess := hdone me
  rw [hclosing, closing, get_opening] at hprocess
  exact (Program.done.inj hprocess).symm

/-- Programs that settle on values end with them. -/
theorem Settles.endsWith {programs : Fin n → RankProgram n α} {values : Fin n → α}
    (hsettles : Settles programs values) : EndsWith programs values :=
  ⟨_, settles_iff_reaches.mp hsettles, fun me => get_opening _ me⟩

/-- Programs that have ended have settled. -/
theorem settles_done (values : Fin n → α) : Settles (fun me => .done (values me)) values :=
  settles_iff_reaches.mpr (.refl _)

/-- Groups that settle can be put one after the other. -/
theorem Settles.bind {programs : Fin n → RankProgram n α} {values : Fin n → α}
    {next : Fin n → α → RankProgram n β} {results : Fin n → β}
    (hfirst : Settles programs values)
    (hsecond : Settles (fun me => next me (values me)) results) :
    Settles (fun me => (programs me).bind (next me)) results := by
  obtain ⟨_, hfirst⟩ := settles_iff_reaches.mp hfirst
  have hlifted := hfirst.andThen next
  rw [opening_andThen, closing, opening_andThen] at hlifted
  exact settles_iff_reaches.mpr
    (GroupState.Reaches.trans ⟨_, hlifted⟩ (settles_iff_reaches.mp hsecond))

/-! ### Matching sends and receives -/

/-- The history of a rank that sends these messages, each to its destination. -/
def posting (messages : List (Fin n × Bytes)) : History n :=
  messages.map fun (dest, message) => ⟨.send dest message, true⟩

/-- The history of a rank that receives these messages, each from its source. -/
def taking (messages : List (Fin n × Bytes)) : History n :=
  messages.map fun (source, message) => ⟨.receive source, some message⟩

/-- The messages that go to one rank, or come from it. -/
def along (rank : Fin n) (messages : List (Fin n × Bytes)) : List Bytes :=
  messages.filterMap fun (other, message) => if other = rank then some message else none

/-- A message comes before the later ones of its rank. -/
theorem along_cons (rank other : Fin n) (message : Bytes) (messages : List (Fin n × Bytes)) :
    along rank ((other, message) :: messages) =
      (if other = rank then [message] else []) ++ along rank messages := by
  by_cases h : other = rank <;> simp [along, h]

/-- A rank can send its messages at once, whatever the others do. -/
theorem GroupState.exists_reaches_posting {state : GroupState n α} {me : Fin n}
    {messages : List (Fin n × Bytes)} {rest : RankProgram n α}
    (hopen : state.network.IsOpen)
    (hfollows : (state.processes.get me).Follows (posting messages) rest) :
    ∃ after, state.Reaches after ∧ after.network.IsOpen ∧
      after.processes.get me = rest ∧
      (∀ rank, rank ≠ me → after.processes.get rank = state.processes.get rank) ∧
      ∀ source dest, after.network.queue source dest =
        state.network.queue source dest ++ if source = me then along dest messages else [] := by
  induction messages generalizing state with
  | nil => exact ⟨state, .refl state, hopen, hfollows.eq_of_nil, fun _ _ => rfl, by simp [along]⟩
  | cons first messages ih =>
    obtain ⟨dest, message⟩ := first
    obtain ⟨next, hprocess, hrest⟩ := hfollows.of_cons
    have hallows : state.network.Allows me ⟨.send dest message, true⟩ := hopen dest
    have hacts : state.Acts me ⟨.send dest message, true⟩ _ :=
      ⟨next, _, hprocess, Network.serve_eq_some_iff.mpr ⟨hallows, rfl⟩, rfl⟩
    obtain ⟨after, hreaches, hopen', hme, hothers, hqueues⟩ :=
      ih (hacts.isOpen hopen) (by rw [get_set_self]; exact hrest)
    refine ⟨after, hacts.reaches.trans hreaches, hopen', hme, fun rank hrank => ?_,
      fun source dest' => ?_⟩
    · rw [hothers rank hrank, get_set_of_ne _ _ hrank]
    · rw [hqueues]
      simp only [Network.after, Network.queue_push, along_cons]
      by_cases hsource : source = me <;> simp [hsource, eq_comm]

/-- A rank can receive at once the messages that are at the front of its queues. -/
theorem GroupState.exists_reaches_taking {state : GroupState n α} {me : Fin n}
    {messages : List (Fin n × Bytes)} {rest : RankProgram n α} {left : Fin n → List Bytes}
    (hopen : state.network.IsOpen)
    (hfollows : (state.processes.get me).Follows (taking messages) rest)
    (hqueues : ∀ source, state.network.queue source me = along source messages ++ left source) :
    ∃ after, state.Reaches after ∧ after.network.IsOpen ∧
      after.processes.get me = rest ∧
      (∀ rank, rank ≠ me → after.processes.get rank = state.processes.get rank) ∧
      ∀ source dest, after.network.queue source dest =
        if dest = me then left source else state.network.queue source dest := by
  induction messages generalizing state with
  | nil =>
    refine ⟨state, .refl state, hopen, hfollows.eq_of_nil, fun _ _ => rfl, fun source dest => ?_⟩
    split
    · next hdest => rw [hdest, hqueues source]; rfl
    · rfl
  | cons first messages ih =>
    obtain ⟨source, message⟩ := first
    obtain ⟨next, hprocess, hrest⟩ := hfollows.of_cons
    have hallows : state.network.Allows me ⟨.receive source, some message⟩ := by
      simp [Network.Allows, hqueues, along_cons]
    have hacts : state.Acts me ⟨.receive source, some message⟩ _ :=
      ⟨next, _, hprocess, Network.serve_eq_some_iff.mpr ⟨hallows, rfl⟩, rfl⟩
    obtain ⟨after, hreaches, hopen', hme, hothers, hqueues'⟩ :=
      ih (hacts.isOpen hopen) (by rw [get_set_self]; exact hrest) (fun source' => by
        simp only [Network.after, Network.queue_pop, hqueues, along_cons, and_true]
        by_cases hsource : source' = source
        · simp [hsource]
        · simp [hsource, Ne.symm hsource])
    refine ⟨after, hacts.reaches.trans hreaches, hopen', hme, fun rank hrank => ?_,
      fun source' dest => ?_⟩
    · rw [hothers rank hrank, get_set_of_ne _ _ hrank]
    · rw [hqueues']
      simp only [Network.after, Network.queue_pop]
      by_cases hdest : dest = me <;> simp [hdest]

/-- One rank after another, the ranks of a list can send all their messages. -/
theorem GroupState.exists_reaches_posting_all {state : GroupState n α} {ranks : List (Fin n)}
    {posts : Fin n → List (Fin n × Bytes)} {rest : Fin n → RankProgram n α}
    (hnodup : ranks.Nodup) (hopen : state.network.IsOpen)
    (hfollows : ∀ me ∈ ranks, (state.processes.get me).Follows (posting (posts me)) (rest me)) :
    ∃ after, state.Reaches after ∧ after.network.IsOpen ∧
      (∀ me ∈ ranks, after.processes.get me = rest me) ∧
      (∀ me ∉ ranks, after.processes.get me = state.processes.get me) ∧
      ∀ source dest, after.network.queue source dest = state.network.queue source dest ++
        if source ∈ ranks then along dest (posts source) else [] := by
  induction ranks generalizing state with
  | nil => exact ⟨state, .refl state, hopen, by simp, by simp, by simp⟩
  | cons first ranks ih =>
    obtain ⟨hfirst, hnodup⟩ := List.nodup_cons.mp hnodup
    obtain ⟨between, hreaches, hopen', hme, hothers, hqueues⟩ :=
      exists_reaches_posting hopen (hfollows first (by simp))
    have hne : ∀ rank ∈ ranks, rank ≠ first := fun rank hrank h => hfirst (h ▸ hrank)
    obtain ⟨after, hreaches', hopen'', hin, hout, hqueues'⟩ := ih hnodup hopen' fun rank hrank => by
      rw [hothers rank (hne rank hrank)]
      exact hfollows rank (by simp [hrank])
    refine ⟨after, hreaches.trans hreaches', hopen'', fun rank hrank => ?_, fun rank hrank => ?_,
      fun source dest => ?_⟩
    · rcases List.mem_cons.mp hrank with rfl | hrank
      · rw [hout rank hfirst, hme]
      · exact hin rank hrank
    · rw [List.mem_cons, not_or] at hrank
      rw [hout rank hrank.2, hothers rank hrank.1]
    · rw [hqueues', hqueues]
      by_cases hsource : source = first
      · subst hsource
        simp [hfirst]
      · simp [hsource]

/-- One rank after another, the ranks of a list can receive what is on its way to them. -/
theorem GroupState.exists_reaches_taking_all {state : GroupState n α} {ranks : List (Fin n)}
    {takes : Fin n → List (Fin n × Bytes)} {rest : Fin n → RankProgram n α}
    (hnodup : ranks.Nodup) (hopen : state.network.IsOpen)
    (hfollows : ∀ me ∈ ranks, (state.processes.get me).Follows (taking (takes me)) (rest me))
    (hqueues : ∀ me ∈ ranks, ∀ source, state.network.queue source me = along source (takes me)) :
    ∃ after, state.Reaches after ∧ after.network.IsOpen ∧
      (∀ me ∈ ranks, after.processes.get me = rest me) ∧
      (∀ me ∉ ranks, after.processes.get me = state.processes.get me) ∧
      ∀ source dest, after.network.queue source dest =
        if dest ∈ ranks then [] else state.network.queue source dest := by
  induction ranks generalizing state with
  | nil => exact ⟨state, .refl state, hopen, by simp, by simp, by simp⟩
  | cons first ranks ih =>
    obtain ⟨hfirst, hnodup⟩ := List.nodup_cons.mp hnodup
    obtain ⟨between, hreaches, hopen', hme, hothers, hqueues'⟩ :=
      @exists_reaches_taking _ _ _ _ _ _ (fun _ => []) hopen (hfollows first (by simp))
        fun source => by
          rw [hqueues first (by simp), List.append_nil]
    have hne : ∀ rank ∈ ranks, rank ≠ first := fun rank hrank h => hfirst (h ▸ hrank)
    obtain ⟨after, hreaches', hopen'', hin, hout, hqueues''⟩ := ih hnodup hopen'
      (fun rank hrank => by
        rw [hothers rank (hne rank hrank)]
        exact hfollows rank (by simp [hrank]))
      (fun rank hrank source => by
        rw [hqueues', if_neg (hne rank hrank)]
        exact hqueues rank (by simp [hrank]) source)
    refine ⟨after, hreaches.trans hreaches', hopen'', fun rank hrank => ?_, fun rank hrank => ?_,
      fun source dest => ?_⟩
    · rcases List.mem_cons.mp hrank with rfl | hrank
      · rw [hout rank hfirst, hme]
      · exact hin rank hrank
    · rw [List.mem_cons, not_or] at hrank
      rw [hout rank hrank.2, hothers rank hrank.1]
    · rw [hqueues'', hqueues']
      by_cases hdest : dest = first <;> simp [hdest]

/-- **Matching messages.** When every rank first sends and then receives, and what each rank
sends to each other one is what that one receives from it, in the same order, the group
settles. -/
theorem settles_of_matching {programs : Fin n → RankProgram n α} {values : Fin n → α}
    (posts takes : Fin n → List (Fin n × Bytes))
    (hfollows : ∀ me, (programs me).Follows (posting (posts me) ++ taking (takes me))
      (.done (values me)))
    (hmatch : ∀ source dest, along dest (posts source) = along source (takes dest)) :
    Settles programs values := by
  -- Every rank's program is cut at the point where it has sent everything.
  choose middle hposting htaking using fun me => (hfollows me).of_append
  have hnodup := List.nodup_finRange n
  obtain ⟨between, hreaches, hopen, hin, _, hqueues⟩ :=
    @GroupState.exists_reaches_posting_all _ _ (opening programs) _ _ _ hnodup
      (isOpen_opening programs) fun me _ => by
        rw [get_opening]
        exact hposting me
  obtain ⟨after, hreaches', hopen', hin', _, hqueues'⟩ :=
    @GroupState.exists_reaches_taking_all _ _ between _ takes _ hnodup hopen
      (fun me hme => by
        rw [hin me hme]
        exact htaking me)
      (fun me _ source => by simp [hqueues, hmatch])
  have hafter : after = closing values := by
    refine ext_get (Network.ext_queue (fun source dest => ?_) fun rank => ?_) fun me => ?_
    · simp [hqueues', closing]
    · rw [hopen' rank, closing, network_opening, Network.isPresent_idle]
    · rw [hin' me (List.mem_finRange me), closing, get_opening]
  exact settles_iff_reaches.mpr (hafter ▸ hreaches.trans hreaches')

end CollectiveTuner.Transport
