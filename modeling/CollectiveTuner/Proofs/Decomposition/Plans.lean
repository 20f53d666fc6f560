import CollectiveTuner.Proofs.Communicator.Replies
import CollectiveTuner.Proofs.Decomposition.Steps

/-!
# Plans of an attempt

A decomposition works through a plan of calls until one fails. `Pursues` says so of one rank,
for any replies: whether the rank gets as far as the plan depends on the room that it has, and
how far it gets then on the pattern of failures, but nothing depends on what is in a buffer.
-/

namespace CollectiveTuner

open Scratch

/-- Run on the replies, the script makes the calls of the plan in order until one fails. Without
room it fails before it makes any. Either way the arena is `kept`, and the caller's buffer is still
`output` when nothing but a failed first call can have written to it, and that has not. -/
structure Pursues (pattern : Pattern) (replies : Replies) (position : Nat)
    (script : Script (Except Error Unit × Workspace)) (output : Bytes) (room : Prop)
    (plan : List Primitive) (kept : Arena → Prop) : Prop where
  calls : room →
    (script.answeredFrom replies position).2.map Call.primitive = pattern.reached position plan
  no_calls : ¬ room → (script.answeredFrom replies position).2 = []
  succeeds : (script.answeredFrom replies position).1.1 = .ok () ↔
    room ∧ pattern.Passes position plan
  kept : kept (script.answeredFrom replies position).1.2.arena
  spares : plan ≠ [] → pattern position = false →
    (∀ call, (replies position call).output = call.output) →
      (script.answeredFrom replies position).1.2.output = output

namespace Pursues

open Attempt

variable {α : Type} {pattern : Pattern} {replies : Replies} {position : Nat}
  {before : Workspace} {output : Bytes} {room : Prop} {plan : List Primitive}
  {kept : Arena → Prop}

/-- All of the plan is done. -/
theorem ends {after : Workspace} (hroom : room) (hkept : kept after.arena) :
    Pursues pattern replies position (.done (.ok (), after)) output room [] kept where
  calls _ := rfl
  no_calls hnone := absurd hroom hnone
  succeeds := iff_of_true rfl ⟨hroom, trivial⟩
  kept := hkept
  spares hplan := absurd rfl hplan

/-- There is no room for the plan. -/
theorem fails {script : Script (Except Error Unit × Workspace)} {after : Workspace}
    (hroom : ¬ room) (hscript : ∃ error, script = .done (.error error, after))
    (hkept : kept after.arena) (houtput : after.output = output) :
    Pursues pattern replies position script output room plan kept := by
  obtain ⟨error, rfl⟩ := hscript
  exact ⟨fun h => absurd h hroom, fun _ => rfl, iff_of_false nofun fun h => hroom h.1, hkept,
    fun _ _ _ => houtput⟩

/-- Scratch space taken in a lease is given back on every way out. -/
theorem withLease {attempt : Attempt Unit} {messages integers : Nat}
    (hbody : Pursues pattern replies position (attempt.run.run before) output room plan
      (Arena.Sized messages integers)) :
    Pursues pattern replies position ((Attempt.withLease attempt).run.run before) output room plan
      (Arena.Ready messages integers) := by
  have hcourse := Script.answeredFrom_bind replies position (attempt.run.run before)
    fun result => .done (result.1, result.2.release)
  simp only [Script.answeredFrom, List.append_nil] at hcourse
  change Pursues _ _ _ ((attempt.run.run before).bind fun result =>
    .done (result.1, result.2.release)) _ _ _ _
  obtain ⟨hcalls, hnone, hsucceeds, hkept, hspares⟩ := hbody
  constructor <;> rw [hcourse]
  · exact hcalls
  · exact hnone
  · exact hsucceeds
  · exact hkept.ready_release
  · exact hspares

/-! ### Calls -/

/-- The next call of the plan. A reply is as long as what the call may write over. -/
theorem bind_issue (hanswers : Answers pattern replies) (hroom : room) {primitive : Primitive}
    {input : Bytes} {place : Place} {next : Unit → Attempt Unit}
    (hnext : pattern position = true → ∀ bytes, bytes.length = (place.read before).length →
      Pursues pattern replies (position + 1) ((next ()).run.run (place.write before bytes))
        (place.write before bytes).output room plan kept)
    (hkept : ∀ bytes, kept (place.write before bytes).arena) :
    Pursues pattern replies position ((issue primitive input place >>= next).run.run before)
      before.output room (primitive :: plan) kept := by
  have hlength := hanswers.length position ⟨primitive, input, place.read before⟩
  rw [run_issue]
  cases hpasses : pattern position with
  | true =>
    have hstatus := hanswers.status_eq_ok ⟨primitive, input, place.read before⟩ hpasses
    obtain ⟨hcalls, hnone, hsucceeds, hkept', -⟩ := hnext hpasses _ hlength
    constructor <;> simp only [Script.answeredFrom, hstatus]
    · intro hroom
      simp [hcalls hroom, Pattern.reached, hpasses]
    · exact fun h => absurd hroom h
    · simpa [Pattern.Passes, hpasses] using hsucceeds
    · exact hkept'
    · simp [hpasses]
  | false =>
    obtain ⟨error, hstatus⟩ :=
      hanswers.status_eq_error ⟨primitive, input, place.read before⟩ hpasses
    constructor <;> simp only [Script.answeredFrom, hstatus]
    · simp [Pattern.reached, hpasses]
    · exact fun h => absurd hroom h
    · simp [Pattern.Passes, hpasses]
    · exact hkept _
    · intro _ _ hecho
      rw [hecho, Place.write_read]

/-- The last call of the plan. -/
theorem issue (hanswers : Answers pattern replies) (hroom : room) {primitive : Primitive}
    {input : Bytes} {place : Place} (hkept : ∀ bytes, kept (place.write before bytes).arena) :
    Pursues pattern replies position ((issue primitive input place).run.run before) before.output
      room [primitive] kept := by
  rw [← bind_pure (Attempt.issue primitive input place)]
  exact bind_issue hanswers hroom (fun _ bytes _ => .ends hroom (hkept bytes)) hkept

/-! ### Steps without calls -/

section Steps

variable {next : Attempt Unit} {region : Region} {bytes : Bytes}

/-- The rank looks at its scratch space. -/
theorem bind_readScratch {use : Bytes → Attempt Unit}
    (hnext : Pursues pattern replies position
      ((use (before.arena.messages.read region)).run.run before) output room plan kept) :
    Pursues pattern replies position ((readScratch region >>= use).run.run before) output room plan
      kept :=
  hnext

/-- The rank fills a region of its scratch space. -/
theorem bind_writeScratch
    (hnext : Pursues pattern replies position (next.run.run (before.fill region bytes)) output room
      plan kept) :
    Pursues pattern replies position
      ((writeScratch region bytes >>= fun _ => next).run.run before) output room plan kept :=
  hnext

/-- The rank stores counts or displacements. -/
theorem bind_storeIntegers {numbers : List Nat}
    (hnext : Pursues pattern replies position (next.run.run (before.store region numbers)) output
      room plan kept) :
    Pursues pattern replies position
      ((storeIntegers region numbers >>= fun _ => next).run.run before) output room plan kept :=
  hnext

/-- The rank takes the whole of its output as the place of a call. -/
theorem bind_wholeOutput {use : Place → Attempt Unit}
    (hnext : Pursues pattern replies position
      ((use (.output 0 before.output.length)).run.run before) output room plan kept) :
    Pursues pattern replies position ((wholeOutput >>= use).run.run before) output room plan kept :=
  hnext

/-- The last call of the plan, which writes to the whole of the caller's buffer. -/
theorem issue_whole (hanswers : Answers pattern replies) (hroom : room) {primitive : Primitive}
    {input : Bytes} (hkept : kept before.arena) :
    Pursues pattern replies position
      ((wholeOutput >>= Attempt.issue primitive input).run.run before) before.output room
      [primitive] kept :=
  bind_wholeOutput (issue hanswers hroom fun _ => hkept)

/-- On some ranks a step comes first that makes no call. -/
theorem of_ite {condition : Prop} [Decidable condition] {branch : Attempt Unit}
    (invariant : Arena → Prop) (hbefore : invariant before.arena)
    (hbranch : condition → ∃ after : Workspace, invariant after.arena ∧
      after.output = before.output ∧ branch.run.run before = next.run.run after)
    (hnext : ∀ after : Workspace, invariant after.arena →
      Pursues pattern replies position (next.run.run after) after.output room plan kept) :
    Pursues pattern replies position ((if condition then branch else next).run.run before)
      before.output room plan kept := by
  split
  · next hcondition =>
    obtain ⟨after, hafter, houtput, hcourse⟩ := hbranch hcondition
    rw [hcourse, ← houtput]
    exact hnext after hafter
  · exact hnext before hbefore

/-- What an attempt writes to the caller's buffer after its last call. -/
theorem writeOutput {start : Nat} (hroom : room) (hkept : kept before.arena) :
    Pursues pattern replies position ((writeOutput start bytes).run.run before) output room []
      kept :=
  .ends hroom hkept

end Steps

/-! ### Scratch space -/

section Scratch

variable {messages integers bytes : Nat} {use : Region → Attempt Unit}

/-- The first region of the message pool, without which there is no room for the plan. -/
theorem bind_grabMessages_first (hready : before.arena.messages.shape = .free 1 messages)
    (hkept : kept before.arena)
    (hgranted : bytes ≤ messages → Pursues pattern replies position
      ((use ⟨.first, 0, bytes⟩).run.run (before.holdMessages .first bytes)) before.output room plan
      kept)
    (hroom : room → bytes ≤ messages) :
    Pursues pattern replies position ((grabMessages .first bytes >>= use).run.run before)
      before.output room plan kept := by
  rcases Nat.lt_or_ge messages bytes with hlarge | hfits
  · exact .fails (fun h => absurd (hroom h) (by omega))
      (run_grabMessages_first_error hready hlarge use) hkept rfl
  · rw [run_grabMessages_first hready hfits]
    exact hgranted hfits

/-- Two regions of the message pool next to each other, without which there is no room for the
plan. -/
theorem bind_grabBlocks {first second : Nat} {blocks : Region → Region → Attempt Unit}
    (hready : before.arena.Ready messages integers)
    (hgranted : first + second ≤ messages → ∀ (full part : Region) (after : Workspace),
      after.output = before.output → after.arena.Sized messages integers →
      Pursues pattern replies position ((blocks full part).run.run after) after.output room plan
        (Arena.Sized messages integers))
    (hroom : room → first + second ≤ messages) :
    Pursues pattern replies position
      ((grabMessages .first first >>= fun full =>
        grabMessages .second second >>= fun part => blocks full part).run.run before) before.output
      room plan (Arena.Sized messages integers) := by
  have hsized : (before.holdMessages .first first).arena.Sized messages integers :=
    (Workspace.sized_holdMessages _ _ _).mpr hready.sized
  have hhalf := @Pool.shape_hold_first _ _ _ _ first hready.1
  refine bind_grabMessages_first hready.1 hready.sized (fun hfirst => ?_)
    fun h => le_trans (Nat.le_add_right _ _) (hroom h)
  rcases Nat.lt_or_ge (messages - first) second with hlarge | hfits
  · exact .fails (fun h => absurd (hroom h) (by omega))
      (@run_grabMessages_second_error _ (before.holdMessages .first first) _ _ _ hhalf hlarge _)
      hsized rfl
  · rw [@run_grabMessages_second _ (before.holdMessages .first first) _ _ _ hhalf hfits]
    exact hgranted (by omega) _ _ _ rfl ((Workspace.sized_holdMessages _ _ _).mpr hsized)

end Scratch

end Pursues

end CollectiveTuner
