import CollectiveTuner.Proofs.Communicator.Lockstep
import CollectiveTuner.Proofs.Decomposition.Steps

/-!
# Attempts of a group

`Conducts` says that the attempts of all ranks are in lockstep and end alike: they all succeed,
and then no call was refused, or they all fail. There is one rule for each way of putting
attempts together, for each step on the workspace, and for making a call.
-/

namespace CollectiveTuner

open Native Scratch

namespace Attempt

variable {n : Nat} {α β : Type}

/-- Started in these workspaces, the attempts of all ranks are in lockstep from a position on.
Either all succeed, no call of theirs was refused, and `succeeds` holds of the position where
they end, their values and the workspaces they leave; or all fail and `fails` holds. -/
def Conducts (arithmetic : FloatArithmetic) (refusals : Refusals n) (position : Nat)
    (attempts : Fin n → Attempt α) (before : Fin n → Workspace)
    (succeeds : Nat → (Fin n → α) → (Fin n → Workspace) → Prop)
    (fails : Nat → (Fin n → Workspace) → Prop) : Prop :=
  ∃ stop,
    (∃ (values : Fin n → α) (after : Fin n → Workspace), Lockstep arithmetic refusals position
        (fun me => (attempts me).run.run (before me)) stop (fun me => (.ok (values me), after me)) ∧
      (∀ called, position ≤ called → called < stop → refusals called = none) ∧
      succeeds stop values after) ∨
    ∃ (errors : Fin n → Error) (after : Fin n → Workspace), Lockstep arithmetic refusals position
        (fun me => (attempts me).run.run (before me)) stop
        (fun me => (.error (errors me), after me)) ∧
      fails stop after

namespace Conducts

variable {arithmetic : FloatArithmetic} {refusals : Refusals n} {position : Nat}
  {before middle : Fin n → Workspace} {attempts : Fin n → Attempt α}
  {succeeds succeeds' : Nat → (Fin n → α) → (Fin n → Workspace) → Prop}
  {fails fails' : Nat → (Fin n → Workspace) → Prop}

/-- Less can be said of how attempts end. -/
theorem imp (hconducts : Conducts arithmetic refusals position attempts before succeeds fails)
    (hsucceeds : ∀ stop values after, succeeds stop values after → succeeds' stop values after)
    (hfails : ∀ stop after, fails stop after → fails' stop after) :
    Conducts arithmetic refusals position attempts before succeeds' fails' := by
  obtain ⟨stop, ⟨values, after, hlockstep, hnone, hend⟩ | ⟨errors, after, hlockstep, hend⟩⟩ :=
    hconducts
  · exact ⟨stop, .inl ⟨values, after, hlockstep, hnone, hsucceeds _ _ _ hend⟩⟩
  · exact ⟨stop, .inr ⟨errors, after, hlockstep, hfails _ _ hend⟩⟩

/-- Attempts that take the same course are conducted alike. -/
theorem of_course {attempts' : Fin n → Attempt α}
    (hconducts : Conducts arithmetic refusals position attempts' middle succeeds fails)
    (hcourse : ∀ me, (attempts me).run.run (before me) = (attempts' me).run.run (middle me)) :
    Conducts arithmetic refusals position attempts before succeeds fails := by
  unfold Conducts at hconducts ⊢
  rwa [funext hcourse]

/-- On some ranks a step comes first that makes no call. -/
theorem of_branch {condition : Fin n → Prop} [DecidablePred condition]
    {branch next : Fin n → Attempt α} (changed : Fin n → Workspace)
    (hbranch : ∀ me, condition me →
      (branch me).run.run (before me) = (next me).run.run (changed me))
    (hconducts : ∀ after : Fin n → Workspace, (∀ me, condition me → after me = changed me) →
      (∀ me, ¬ condition me → after me = before me) →
      Conducts arithmetic refusals position next after succeeds fails) :
    Conducts arithmetic refusals position (fun me => if condition me then branch me else next me)
      before succeeds fails := by
  refine (hconducts (fun me => if condition me then changed me else before me)
    (fun _ hme => if_pos hme) fun _ hme => if_neg hme).of_course fun me => ?_
  split
  · next hme => exact hbranch me hme
  · rfl

/-- A step that makes no call comes first on the root, which fills a region with it. -/
theorem of_root_fill {root : Fin n} {region : Region} {contents : Bytes}
    {branch next : Fin n → Attempt α} {messages integers : Nat}
    (hlength : contents.length = region.length)
    (hsized : ∀ me, (before me).arena.Sized messages integers)
    (hbranch : (branch root).run.run (before root) =
      (next root).run.run ((before root).fill region contents))
    (hconducts : ∀ after : Fin n → Workspace, (∀ me, (after me).output = (before me).output) →
      (∀ me, (after me).arena.Sized messages integers) →
      (after root).arena.messages.read region = contents →
      Conducts arithmetic refusals position next after succeeds fails) :
    Conducts arithmetic refusals position
      (fun me => if (me : Nat) = root then branch me else next me) before succeeds fails := by
  refine of_branch (fun me => (before me).fill region contents) (fun me hme => ?_)
    fun after hroot hothers => hconducts after (fun me => ?_) (fun me => ?_) ?_
  · rw [Fin.ext hme]
    exact hbranch
  · by_cases hme : (me : Nat) = root
    · rw [hroot me hme]
      rfl
    · rw [hothers me hme]
  · by_cases hme : (me : Nat) = root
    · rw [hroot me hme]
      exact hsized me
    · rw [hothers me hme]
      exact hsized me
  · rw [hroot root rfl]
    exact Workspace.read_fill _ hlength

/-- Attempts that do nothing succeed where they stand. -/
theorem pure {values : Fin n → α} (hsucceeds : succeeds position values before) :
    Conducts arithmetic refusals position (fun me => Pure.pure (values me)) before succeeds fails :=
  ⟨position, .inl ⟨values, before, .done position _,
    fun _ hle hlt => absurd hlt (Nat.not_lt.mpr hle), hsucceeds⟩⟩

/-- Attempts that all fail before their first call. -/
theorem error {after : Fin n → Workspace}
    (hcourse : ∀ me, ∃ error, (attempts me).run.run (before me) = .done (.error error, after me))
    (hfails : fails position after) :
    Conducts arithmetic refusals position attempts before succeeds fails := by
  choose errors hcourse using hcourse
  refine ⟨position, .inr ⟨errors, after, ?_, hfails⟩⟩
  rw [funext hcourse]
  exact .done position _

/-- One attempt after another. When the first one fails, so does the whole. -/
theorem bind {first : Fin n → Attempt β} {next : Fin n → β → Attempt α}
    (hfirst : Conducts arithmetic refusals position first before
      (fun middle values after =>
        Conducts arithmetic refusals middle (fun me => next me (values me)) after succeeds fails)
      fails) :
    Conducts arithmetic refusals position (fun me => first me >>= next me) before succeeds
      fails := by
  obtain ⟨middle, ⟨values, between, hlockstep, hnone, stop, hrest⟩ |
    ⟨errors, after, hlockstep, hend⟩⟩ := hfirst
  · refine ⟨stop, ?_⟩
    rcases hrest with ⟨results, after, hlockstep', hnone', hend⟩ | ⟨errors, after, hlockstep', hend⟩
    · refine .inl ⟨results, after, hlockstep.bind hlockstep', fun called hle hlt => ?_, hend⟩
      by_cases hcalled : called < middle
      · exact hnone called hle hcalled
      · exact hnone' called (by omega) hlt
    · exact .inr ⟨errors, after, hlockstep.bind hlockstep', hend⟩
  · exact ⟨middle, .inr ⟨errors, after, hlockstep.bind (.done middle _), hend⟩⟩

/-- Scratch space taken in a lease is given back whether the attempts succeed or fail. -/
theorem withLease
    (hbody : Conducts arithmetic refusals position attempts before
      (fun stop values after => succeeds stop values fun me => (after me).release)
      (fun stop after => fails stop fun me => (after me).release)) :
    Conducts arithmetic refusals position (fun me => withLease (attempts me)) before succeeds
      fails := by
  obtain ⟨stop, ⟨values, after, hlockstep, hnone, hend⟩ | ⟨errors, after, hlockstep, hend⟩⟩ := hbody
  · exact ⟨stop, .inl ⟨values, _, hlockstep.bind (.done stop _), hnone, hend⟩⟩
  · exact ⟨stop, .inr ⟨errors, _, hlockstep.bind (.done stop _), hend⟩⟩

/-! ### Steps without calls -/

section Steps

variable {next : Fin n → β → Attempt α}

/-- A check that passes on every rank. -/
theorem bind_lift {checked : Fin n → Except Error β} {values : Fin n → β}
    (hchecked : ∀ me, checked me = .ok (values me))
    (hnext : Conducts arithmetic refusals position (fun me => next me (values me)) before succeeds
      fails) :
    Conducts arithmetic refusals position (fun me => liftM (checked me) >>= next me) before succeeds
      fails :=
  hnext.of_course fun me => run_lift (hchecked me) (next me)

/-- A check that no rank passes. -/
theorem bind_lift_error {checked : Fin n → Except Error β} {errors : Fin n → Error}
    (hchecked : ∀ me, checked me = .error (errors me)) (hfails : fails position before) :
    Conducts arithmetic refusals position (fun me => liftM (checked me) >>= next me) before succeeds
      fails :=
  error (fun me => ⟨errors me, run_lift_error (hchecked me) (next me)⟩) hfails

variable {step : Fin n → Unit → Attempt α}

/-- A check of the output that passes on every rank. -/
theorem bind_checkOutput {start length : Fin n → Nat}
    (hblock : ∀ me, start me + length me ≤ (before me).output.length)
    (hnext : Conducts arithmetic refusals position (fun me => step me ()) before succeeds fails) :
    Conducts arithmetic refusals position
      (fun me => checkOutput (start me) (length me) >>= step me) before succeeds fails :=
  hnext.of_course fun me => run_checkOutput (hblock me) (step me)

/-- A check of the output that only some ranks make, and that passes there. -/
theorem of_checkOutput {condition : Fin n → Prop} [DecidablePred condition]
    {next : Fin n → Attempt α} {start length : Fin n → Nat}
    (hblock : ∀ me, condition me → start me + length me ≤ (before me).output.length)
    (hnext : Conducts arithmetic refusals position next before succeeds fails) :
    Conducts arithmetic refusals position
      (fun me => if condition me then checkOutput (start me) (length me) >>= fun _ => next me
        else next me) before succeeds fails := by
  refine hnext.of_course fun me => ?_
  split
  · next hme => exact run_checkOutput (hblock me hme) fun _ => next me
  · rfl

/-- The ranks look at their scratch space. -/
theorem bind_readScratch {region : Fin n → Region} {use : Fin n → Bytes → Attempt α}
    (hnext : Conducts arithmetic refusals position
      (fun me => use me ((before me).arena.messages.read (region me))) before succeeds fails) :
    Conducts arithmetic refusals position (fun me => readScratch (region me) >>= use me) before
      succeeds fails :=
  hnext.of_course fun _ => rfl

/-- The ranks fill a region of their scratch space. -/
theorem bind_writeScratch {region : Fin n → Region} {bytes : Fin n → Bytes}
    (hnext : Conducts arithmetic refusals position (fun me => step me ())
      (fun me => (before me).fill (region me) (bytes me)) succeeds fails) :
    Conducts arithmetic refusals position
      (fun me => writeScratch (region me) (bytes me) >>= step me) before succeeds fails :=
  hnext.of_course fun _ => rfl

/-- The ranks store counts or displacements, about which nothing more is known afterwards. -/
theorem bind_storeIntegers {region : Region} {numbers : List Nat}
    (hnext : ∀ after : Fin n → Workspace, (∀ me, (before me).UpToLayout (after me)) →
      Conducts arithmetic refusals position (fun me => step me ()) after succeeds fails) :
    Conducts arithmetic refusals position
      (fun me => storeIntegers region numbers >>= step me) before succeeds fails :=
  (hnext (fun me => (before me).store region numbers)
    fun me => (Workspace.UpToLayout.refl (before me)).store _ _).of_course fun _ => rfl

/-- The ranks take the whole of their output as the place of a call. -/
theorem bind_wholeOutput {use : Fin n → Place → Attempt α}
    (hnext : Conducts arithmetic refusals position
      (fun me => use me (.output 0 (before me).output.length)) before succeeds fails) :
    Conducts arithmetic refusals position (fun me => wholeOutput >>= use me) before succeeds
      fails :=
  hnext.of_course fun _ => rfl

/-- The ranks write to their output. -/
theorem writeOutput {start : Fin n → Nat} {bytes : Fin n → Bytes}
    {succeeds : Nat → (Fin n → Unit) → (Fin n → Workspace) → Prop}
    (hsucceeds : succeeds position (fun _ => ())
      (fun me => (before me).emit (start me) (bytes me))) :
    Conducts arithmetic refusals position (fun me => Attempt.writeOutput (start me) (bytes me))
      before succeeds fails :=
  (pure hsucceeds).of_course fun _ => rfl

/-! ### Scratch space -/

section Scratch

variable {slot : Slot} {messages integers bytes boundary : Nat} {region : Region}
  {use : Fin n → Region → Attempt α}

/-- The first region of the message pool, which all ranks get or none does. -/
theorem bind_grabMessages_first (hshape : ∀ me, (before me).arena.messages.shape = .free 1 messages)
    (hgranted : bytes ≤ messages → Conducts arithmetic refusals position
      (fun me => use me ⟨.first, 0, bytes⟩) (fun me => (before me).holdMessages .first bytes)
      succeeds fails)
    (hrefused : messages < bytes → fails position before) :
    Conducts arithmetic refusals position (fun me => grabMessages .first bytes >>= use me) before
      succeeds fails := by
  rcases Nat.lt_or_ge messages bytes with hlarge | hfits
  · exact error (fun me => run_grabMessages_first_error (hshape me) hlarge (use me))
      (hrefused hlarge)
  · exact (hgranted hfits).of_course fun me => run_grabMessages_first (hshape me) hfits (use me)

/-- The second region of the message pool, which begins where the first one ends. -/
theorem bind_grabMessages_second
    (hshape : ∀ me, (before me).arena.messages.shape = .half 1 messages boundary)
    (hgranted : bytes ≤ messages - boundary → Conducts arithmetic refusals position
      (fun me => use me ⟨.second, boundary, bytes⟩)
      (fun me => (before me).holdMessages .second bytes) succeeds fails)
    (hrefused : messages - boundary < bytes → fails position before) :
    Conducts arithmetic refusals position (fun me => grabMessages .second bytes >>= use me) before
      succeeds fails := by
  rcases Nat.lt_or_ge (messages - boundary) bytes with hlarge | hfits
  · exact error (fun me => run_grabMessages_second_error (hshape me) hlarge (use me))
      (hrefused hlarge)
  · exact (hgranted hfits).of_course fun me => run_grabMessages_second (hshape me) hfits (use me)

/-- Two regions of the message pool next to each other, which all ranks get or none does. -/
theorem bind_grabBlocks {first second : Nat} {blocks : Fin n → Region → Region → Attempt α}
    (hready : ∀ me, (before me).arena.Ready messages integers)
    (hgranted : first + second ≤ messages → ∀ full part : Region, full.length = first →
      part.length = second → full.stop ≤ part.offset → ∀ after : Fin n → Workspace,
      (∀ me, (after me).output = (before me).output) →
      (∀ me, (after me).arena.Sized messages integers) →
      Conducts arithmetic refusals position (fun me => blocks me full part) after succeeds fails)
    (hrefused : messages < first + second → ∀ after : Fin n → Workspace,
      (∀ me, (after me).output = (before me).output) →
      (∀ me, (after me).arena.Sized messages integers) → fails position after) :
    Conducts arithmetic refusals position
      (fun me => grabMessages .first first >>= fun full =>
        grabMessages .second second >>= fun part => blocks me full part) before succeeds fails := by
  have hsized (me : Fin n) (slot : Slot) (length : Nat) :
      ((before me).holdMessages slot length).arena.Sized messages integers :=
    (Workspace.sized_holdMessages _ _ _).mpr (hready me).sized
  refine bind_grabMessages_first (fun me => (hready me).1) (fun hfirst => ?_) fun hlarge =>
    hrefused (by omega) before (fun _ => rfl) fun me => (hready me).sized
  refine bind_grabMessages_second (fun me => Pool.shape_hold_first (hready me).1)
    (fun hsecond => ?_) fun hlarge => hrefused (by omega) _ (fun _ => rfl) fun me => hsized me _ _
  exact hgranted (by omega) ⟨.first, 0, first⟩ ⟨.second, first, second⟩ rfl rfl
    (Nat.zero_add first).le _ (fun _ => rfl) fun me =>
    (Workspace.sized_holdMessages _ _ _).mpr (hsized me _ _)

/-- A region of the message pool that is filled at once, which all ranks get or none does. -/
theorem bind_filled {length : Nat} {contents : Fin n → Bytes}
    (hready : ∀ me, (before me).arena.Ready messages integers)
    (hlength : ∀ me, (contents me).length = length)
    (hgranted : length ≤ messages → ∀ after : Fin n → Workspace,
      (∀ me, (after me).output = (before me).output) →
      (∀ me, (after me).arena.Sized messages integers) →
      (∀ me, (after me).arena.messages.read ⟨.first, 0, length⟩ = contents me) →
      Conducts arithmetic refusals position (fun me => use me ⟨.first, 0, length⟩) after succeeds
        fails)
    (hrefused : messages < length → fails position before) :
    Conducts arithmetic refusals position
      (fun me => grabMessages .first length >>= fun region =>
        Attempt.writeScratch region (contents me) >>= fun _ => use me region) before succeeds
      fails :=
  bind_grabMessages_first (fun me => (hready me).1)
    (fun hfits => bind_writeScratch <| hgranted hfits _ (fun _ => rfl)
      (fun me => by simpa using (hready me).sized) fun me => Workspace.read_fill _ (hlength me))
    hrefused

/-- Room for the counts and displacements of all ranks, which all ranks get or none does. -/
theorem bind_grabLayout {layout : Fin n → Region × Region → Attempt α} {member : Fin n → Member}
    (hmember : ∀ me, (member me).size = n)
    (hshape : ∀ me, (before me).arena.integers.shape = .free countSize integers)
    (hgranted : 2 * n ≤ integers → ∀ after : Fin n → Workspace,
      (∀ me, (before me).UpToLayout (after me)) →
      Conducts arithmetic refusals position (fun me => layout me (⟨.first, 0, n⟩, ⟨.second, n, n⟩))
        after succeeds fails)
    (hrefused : integers < 2 * n → ∀ after : Fin n → Workspace,
      (∀ me, (before me).UpToLayout (after me)) → fails position after) :
    Conducts arithmetic refusals position (fun me => grabLayout (member me) >>= layout me) before
      succeeds fails := by
  rcases Nat.lt_or_ge integers (2 * n) with hsmall | hroom
  · choose errors after hafter hcourse using fun me =>
      run_grabLayout_error (hmember me) (hshape me) hsmall (layout me)
    exact error (fun me => ⟨errors me, hcourse me⟩) (hrefused hsmall after hafter)
  · choose after hafter hcourse using fun me =>
      run_grabLayout (hmember me) (hshape me) hroom (layout me)
    exact (hgranted hroom after hafter).of_course hcourse

end Scratch

/-! ### Calls -/

section Calls

variable {primitive : Fin n → Primitive} {inputs outputs results : Fin n → Bytes}
  {places : Fin n → Place} {accepted : Prop}
  {succeeds : Nat → (Fin n → Unit) → (Fin n → Workspace) → Prop}

/-- A call that all ranks make. Unless it is refused, either the channels carry it out or they
reject it on every rank. -/
theorem issue
    (hserves : Serves (fun me => exchange arithmetic me (inputs me) (primitive me)) accepted outputs
      results)
    (hread : ∀ me, (places me).read (before me) = outputs me)
    (hsucceeds : accepted → succeeds (position + 1) (fun _ => ())
      fun me => (places me).write (before me) (results me))
    (hfails : (accepted → refusals position ≠ none) → fails (position + 1) before) :
    Conducts arithmetic refusals position (fun me => issue (primitive me) (inputs me) (places me))
      before succeeds fails := by
  have hcourse : (fun me => (Attempt.issue (primitive me) (inputs me) (places me)).run.run
      (before me)) = fun me => .ask ⟨primitive me, inputs me, outputs me⟩ fun reply =>
        .done (reply.status, (places me).write (before me) reply.output) := by
    funext me
    rw [← hread me]
    rfl
  have hwrite (me : Fin n) : (places me).write (before me) (outputs me) = before me := by
    rw [← hread me, Place.write_read]
  unfold Conducts
  rw [hcourse]
  cases hrefused : refusals position with
  | some errors =>
    refine ⟨position + 1, .inr ⟨errors, before, .refused hrefused ?_, hfails fun _ => ?_⟩⟩
    · simp only [hwrite]
      exact .done _ _
    · rw [hrefused]
      exact Option.some_ne_none errors
  | none =>
    by_cases hcase : accepted
    · refine ⟨position + 1, .inl ⟨_, _, .answered hrefused (hserves.together hcase).settles_answer
        (.done _ _), fun called hle hlt => ?_, hsucceeds hcase⟩⟩
      rw [show called = position by omega, hrefused]
    · obtain ⟨error, htogether⟩ := hserves.rejected hcase
      refine ⟨position + 1, .inr ⟨fun _ => error, before,
        .answered hrefused htogether.settles_answer ?_, hfails fun h => absurd h hcase⟩⟩
      simp only [hwrite]
      exact .done _ _

/-- A call that writes to a region of the message pool. -/
theorem issue_scratch {region : Fin n → Region}
    (hserves : Serves (fun me => exchange arithmetic me (inputs me) (primitive me)) accepted outputs
      results)
    (hread : ∀ me, (before me).arena.messages.read (region me) = outputs me)
    (hsucceeds : accepted → succeeds (position + 1) (fun _ => ())
      fun me => (before me).fill (region me) (results me))
    (hfails : (accepted → refusals position ≠ none) → fails (position + 1) before) :
    Conducts arithmetic refusals position
      (fun me => Attempt.issue (primitive me) (inputs me) (.scratch (region me))) before succeeds
      fails :=
  issue hserves hread hsucceeds hfails

/-- A call that writes to the whole of the caller's buffer at the root, and to a region of the
message pool everywhere else. -/
theorem issue_root {region : Region} {root : Fin n}
    (hserves : Serves (fun me => exchange arithmetic me (inputs me) (primitive me)) accepted
      (fun me => if me = root then (before me).output else (before me).arena.messages.read region)
      results)
    (hlength : (results root).length = (before root).output.length)
    (hsucceeds : accepted → succeeds (position + 1) (fun _ => ()) fun me =>
      if me = root then { before me with output := results me }
      else (before me).fill region (results me))
    (hfails : (accepted → refusals position ≠ none) → fails (position + 1) before) :
    Conducts arithmetic refusals position
      (fun me => (if me = root then wholeOutput else Pure.pure (.scratch region)) >>=
        Attempt.issue (primitive me) (inputs me)) before succeeds fails := by
  let places (me : Fin n) : Place :=
    if me = root then .output 0 (before me).output.length else .scratch region
  have hread (me : Fin n) : (places me).read (before me) =
      if me = root then (before me).output else (before me).arena.messages.read region := by
    simp only [places]
    split
    · exact Bytes.slice_self _
    · rfl
  have hresult : (fun me => (places me).write (before me) (results me)) = fun me =>
      if me = root then { before me with output := results me }
      else (before me).fill region (results me) := by
    funext me
    simp only [places]
    split
    · next hme =>
      subst hme
      rw [Place.write, Bytes.overwrite_zero_of_length hlength]
    · rfl
  refine (issue hserves hread (fun haccepted => ?_) hfails).of_course fun me => ?_
  · rw [hresult]
    exact hsucceeds haccepted
  · simp only [places]
    split <;> rfl

/-- A call that writes to a block of the caller's buffer. -/
theorem issue_block {start length : Fin n → Nat}
    (hserves : Serves (fun me => exchange arithmetic me (inputs me) (primitive me)) accepted
      (fun me => (before me).output.slice (start me) (length me)) results)
    (hsucceeds : accepted → succeeds (position + 1) (fun _ => ())
      fun me => (before me).emit (start me) (results me))
    (hfails : (accepted → refusals position ≠ none) → fails (position + 1) before) :
    Conducts arithmetic refusals position
      (fun me => Attempt.issue (primitive me) (inputs me) (.output (start me) (length me))) before
      succeeds fails :=
  issue hserves (fun _ => rfl) hsucceeds hfails

/-- A call that writes to the whole of the caller's buffer. -/
theorem issue_whole
    (hserves : Serves (fun me => exchange arithmetic me (inputs me) (primitive me)) accepted
      (fun me => (before me).output) results)
    (hlength : ∀ me, (results me).length = (before me).output.length)
    (hsucceeds : accepted → succeeds (position + 1) (fun _ => ())
      fun me => { before me with output := results me })
    (hfails : (accepted → refusals position ≠ none) → fails (position + 1) before) :
    Conducts arithmetic refusals position
      (fun me => Attempt.issue (primitive me) (inputs me) (.output 0 (before me).output.length))
      before succeeds fails := by
  have hresult (me : Fin n) : (Place.output 0 (before me).output.length).write (before me)
      (results me) = { before me with output := results me } := by
    rw [Place.write, Bytes.overwrite_zero_of_length (hlength me)]
  refine issue hserves (fun me => Bytes.slice_self _) (fun haccepted => ?_) hfails
  rw [funext hresult]
  exact hsucceeds haccepted

end Calls

end Steps

end Conducts

/-! ### Requests -/

/-- The buffer is as long as before and the same from `touched` on. -/
def Spared (touched : Nat) (before after : Bytes) : Prop :=
  after.length = before.length ∧ after.drop touched = before.drop touched

/-- A buffer that has not changed is spared. -/
theorem Spared.of_eq {touched : Nat} {before after : Bytes} (heq : after = before) :
    Spared touched before after :=
  heq ▸ ⟨rfl, rfl⟩

/-- Writing a block spares what lies beyond it. -/
theorem Spared.overwrite {touched start : Nat} {before block : Bytes}
    (hblock : start + block.length ≤ touched) (hfits : start + block.length ≤ before.length) :
    Spared touched before (before.overwrite start block) :=
  ⟨Bytes.length_overwrite hfits, Bytes.drop_overwrite (by omega) hblock⟩

/-- How a group ends that succeeds: scratch space and layouts were large enough and the
combination supported, and every output begins with its contents. -/
structure Completes (kept : Arena → Prop) (possible : Prop) (outputs contents : Fin n → Bytes)
    (after : Fin n → Workspace) : Prop where
  possible : possible
  arena : ∀ me, kept (after me).arena
  output : ∀ me, (after me).output = (outputs me).overwrite 0 (contents me)

/-- How a group ends that fails: it was not possible or a call was refused, and every output is
the same from `touched` on. -/
structure Abandons (refusals : Refusals n) (kept : Arena → Prop) (possible : Prop)
    (outputs : Fin n → Bytes) (touched : Fin n → Nat) (stop : Nat) (after : Fin n → Workspace) :
    Prop where
  cause : possible → ∃ called < stop, refusals called ≠ none
  arena : ∀ me, kept (after me).arena
  output : ∀ me, Spared (touched me) (outputs me) (after me).output

/-- A group that fails before anything is written to the outputs. -/
theorem Abandons.of_output_eq {refusals : Refusals n} {kept : Arena → Prop} {possible : Prop}
    {outputs : Fin n → Bytes} {touched : Fin n → Nat} {stop : Nat} {after : Fin n → Workspace}
    (hcause : possible → ∃ called < stop, refusals called ≠ none)
    (harena : ∀ me, kept (after me).arena) (houtput : ∀ me, (after me).output = outputs me) :
    Abandons refusals kept possible outputs touched stop after where
  cause := hcause
  arena := harena
  output me := .of_eq (houtput me)

/-- The attempts of a group put these contents at the start of its outputs. They succeed when it
is possible, unless a call is refused, and when they fail they have changed nothing but the
first `touched` bytes. -/
def Realizes (arithmetic : FloatArithmetic) (refusals : Refusals n) (kept : Arena → Prop)
    (possible : Prop) (outputs contents : Fin n → Bytes) (touched : Fin n → Nat) (position : Nat)
    (attempts : Fin n → Attempt Unit) (before : Fin n → Workspace) : Prop :=
  Conducts arithmetic refusals position attempts before
    (fun _ _ after => Completes kept possible outputs contents after)
    fun stop after => Abandons refusals kept possible outputs touched stop after

/-- The last call of a group, which writes to the whole of its outputs. -/
theorem Realizes.last_whole {arithmetic : FloatArithmetic} {refusals : Refusals n}
    {kept : Arena → Prop} {possible accepted : Prop} {outputs contents results : Fin n → Bytes}
    {touched : Fin n → Nat} {position : Nat} {before : Fin n → Workspace}
    {primitive : Fin n → Primitive} {inputs : Fin n → Bytes}
    (hserves : Serves (fun me => exchange arithmetic me (inputs me) (primitive me)) accepted
      (fun me => (before me).output) results)
    (hpossible : possible ↔ accepted) (harena : ∀ me, kept (before me).arena)
    (hspared : ∀ me, Spared (touched me) (outputs me) (before me).output)
    (hlength : ∀ me, (contents me).length ≤ (outputs me).length)
    (hresults : ∀ me, results me = (outputs me).overwrite 0 (contents me)) :
    Realizes arithmetic refusals kept possible outputs contents touched position
      (fun me => wholeOutput >>= issue (primitive me) (inputs me)) before := by
  refine Conducts.bind_wholeOutput (.issue_whole hserves (fun me => ?_) (fun haccepted => ?_)
    fun hrefused => ?_)
  · rw [hresults, Bytes.length_overwrite (by simpa using hlength me), (hspared me).1]
  · exact ⟨hpossible.mpr haccepted, harena, hresults⟩
  · exact ⟨fun h => ⟨position, by omega, hrefused (hpossible.mp h)⟩, harena, hspared⟩

/-- What realizes an operation inside a lease realizes it in an arena of which nothing is handed
out. -/
theorem Realizes.withLease {arithmetic : FloatArithmetic} {refusals : Refusals n}
    {messages integers : Nat} {possible : Prop} {outputs contents : Fin n → Bytes}
    {touched : Fin n → Nat} {position : Nat} {attempts : Fin n → Attempt Unit}
    {before : Fin n → Workspace}
    (hbody : Realizes arithmetic refusals (Arena.Sized messages integers) possible outputs contents
      touched position attempts before) :
    Realizes arithmetic refusals (Arena.Ready messages integers) possible outputs contents touched
      position (fun me => withLease (attempts me)) before :=
  Conducts.withLease <| hbody.imp
    (fun _ _ _ h => ⟨h.possible, fun me => (h.arena me).ready_release, h.output⟩)
    (fun _ _ h => ⟨h.cause, fun me => (h.arena me).ready_release, h.output⟩)

end Attempt

end CollectiveTuner
