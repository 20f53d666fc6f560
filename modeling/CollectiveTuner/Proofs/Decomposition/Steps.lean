import CollectiveTuner.Decomposition.Movement
import CollectiveTuner.Proofs.Layout.Tilings
import CollectiveTuner.Proofs.Scratch.Shapes

/-!
# Steps of an attempt

Most steps of an attempt make no call. What such a step does to the workspace of a rank, and
whether it fails, depends on the shape of scratch space and on lengths only. Each lemma here
carries out one of these steps.
-/

namespace CollectiveTuner

open Scratch

/-- Writing to a place what is there changes nothing. -/
theorem Place.write_read (workspace : Workspace) (place : Place) :
    place.write workspace (place.read workspace) = workspace := by
  cases place with
  | output start length =>
    exact congrArg (fun output => { workspace with output })
      (Bytes.overwrite_slice workspace.output start length)
  | scratch region => rw [read, write, Pool.write_read]

/-! ### Workspaces -/

namespace Workspace

/-- The workspace after a region of the message pool has been handed out. -/
def holdMessages (slot : Slot) (length : Nat) (workspace : Workspace) : Workspace :=
  { workspace with
    arena := { workspace.arena with messages := workspace.arena.messages.hold slot length } }

/-- The workspace after a region of the integer pool has been handed out. -/
def holdIntegers (slot : Slot) (length : Nat) (workspace : Workspace) : Workspace :=
  { workspace with
    arena := { workspace.arena with integers := workspace.arena.integers.hold slot length } }

/-- The workspace after a region of the message pool has been filled. -/
def fill (region : Region) (bytes : Bytes) (workspace : Workspace) : Workspace :=
  (Place.scratch region).write workspace bytes

/-- The workspace after numbers have been stored in a region of the integer pool. -/
def store (region : Region) (numbers : List Nat) (workspace : Workspace) : Workspace :=
  { workspace with
    arena := { workspace.arena with integers := workspace.arena.integers.write region numbers } }

/-- The workspace after bytes of the caller's buffer have been replaced. -/
def emit (start : Nat) (bytes : Bytes) (workspace : Workspace) : Workspace :=
  { workspace with output := workspace.output.overwrite start bytes }

/-- The workspace after all scratch space has been given back. -/
def release (workspace : Workspace) : Workspace :=
  { workspace with arena := workspace.arena.release }

/-- Two workspaces that differ in nothing but what is handed out and stored in the integer
pool. -/
structure UpToLayout (before after : Workspace) : Prop where
  output : after.output = before.output
  messages : after.arena.messages = before.arena.messages
  wordSize : after.arena.integers.wordSize = before.arena.integers.wordSize
  capacity : after.arena.integers.capacity = before.arena.integers.capacity

/-- The capacities are the same up to the layout. -/
theorem UpToLayout.sized {before after : Workspace} {messages integers : Nat}
    (hlayout : before.UpToLayout after) (hsized : before.arena.Sized messages integers) :
    after.arena.Sized messages integers := by
  rw [Arena.Sized, hlayout.messages, hlayout.wordSize, hlayout.capacity]
  exact hsized

/-- Every workspace is itself up to the layout. -/
theorem UpToLayout.refl (workspace : Workspace) : workspace.UpToLayout workspace :=
  ⟨rfl, rfl, rfl, rfl⟩

/-- Changes of the layout add up to one. -/
theorem UpToLayout.trans {before middle after : Workspace} (hfirst : before.UpToLayout middle)
    (hsecond : middle.UpToLayout after) : before.UpToLayout after :=
  ⟨hsecond.output.trans hfirst.output, hsecond.messages.trans hfirst.messages,
    hsecond.wordSize.trans hfirst.wordSize, hsecond.capacity.trans hfirst.capacity⟩

/-- Storing counts or displacements changes nothing but the layout. -/
theorem UpToLayout.store {before after : Workspace} (hlayout : before.UpToLayout after)
    (region : Region) (numbers : List Nat) : before.UpToLayout (after.store region numbers) :=
  ⟨hlayout.output, hlayout.messages, hlayout.wordSize, hlayout.capacity⟩

variable (workspace : Workspace) (slot : Slot) (region : Region) (length start : Nat)
  (bytes : Bytes)

/-- Taking a region leaves the output alone. -/
@[simp] theorem output_holdMessages :
    (workspace.holdMessages slot length).output = workspace.output := rfl

/-- Filling a region leaves the output alone. -/
@[simp] theorem output_fill : (workspace.fill region bytes).output = workspace.output := rfl

/-- Emitting writes to the output. -/
@[simp] theorem output_emit :
    (workspace.emit start bytes).output = workspace.output.overwrite start bytes := rfl

/-- Releasing the scratch space leaves the output alone. -/
@[simp] theorem output_release : workspace.release.output = workspace.output := rfl

/-- Emitting leaves the message pool alone. -/
@[simp] theorem messages_emit :
    (workspace.emit start bytes).arena.messages = workspace.arena.messages := rfl

/-- Filling a region writes to the message pool. -/
@[simp] theorem messages_fill :
    (workspace.fill region bytes).arena.messages = workspace.arena.messages.write region bytes :=
  rfl

/-- Taking a region takes it from the message pool. -/
@[simp] theorem messages_holdMessages :
    (workspace.holdMessages slot length).arena.messages =
      workspace.arena.messages.hold slot length := rfl

/-- Taking a region of the message pool leaves the integer pool alone. -/
@[simp] theorem integers_holdMessages :
    (workspace.holdMessages slot length).arena.integers = workspace.arena.integers := rfl

/-- A filled region holds what it was filled with. -/
theorem read_fill {region : Region} {bytes : Bytes} (hlength : bytes.length = region.length) :
    (workspace.fill region bytes).arena.messages.read region = bytes :=
  Pool.read_write _ _ hlength

/-- Filling a region leaves a disjoint one alone. -/
theorem read_fill_of_disjoint {region other : Region} (bytes : Bytes)
    (hdisjoint : region.stop ≤ other.offset ∨ other.stop ≤ region.offset) :
    (workspace.fill region bytes).arena.messages.read other =
      workspace.arena.messages.read other :=
  Pool.read_write_of_disjoint _ _ hdisjoint

variable {messages integers : Nat}

/-- Taking a region keeps the capacities. -/
@[simp] theorem sized_holdMessages :
    (workspace.holdMessages slot length).arena.Sized messages integers ↔
      workspace.arena.Sized messages integers := by
  cases slot <;> rfl

/-- Filling a region keeps the capacities. -/
@[simp] theorem sized_fill :
    (workspace.fill region bytes).arena.Sized messages integers ↔
      workspace.arena.Sized messages integers := Iff.rfl

/-- Emitting keeps the capacities. -/
@[simp] theorem sized_emit :
    (workspace.emit start bytes).arena.Sized messages integers ↔
      workspace.arena.Sized messages integers := Iff.rfl

end Workspace

namespace Attempt

variable {α β : Type} {before : Workspace}

/-! ### Checks -/

/-- A check that passes. -/
theorem run_lift {checked : Except Error β} {value : β} (hchecked : checked = .ok value)
    (next : β → Attempt α) :
    (liftM checked >>= next).run.run before = (next value).run.run before := by
  rw [hchecked]
  rfl

/-- A check that does not pass. -/
theorem run_lift_error {checked : Except Error β} {error : Error}
    (hchecked : checked = .error error) (next : β → Attempt α) :
    (liftM checked >>= next).run.run before = .done (.error error, before) := by
  rw [hchecked]
  rfl

/-- A check of the output that passes is followed by the next step. -/
theorem run_checkOutput {start length : Nat} (hblock : start + length ≤ before.output.length)
    (step : Unit → Attempt α) :
    (checkOutput start length >>= step).run.run before = (step ()).run.run before := by
  have hcheck : Bytes.checkBlock before.output.length start length = .ok () := by
    rw [Bytes.checkBlock, if_pos hblock]
    rfl
  exact run_lift hcheck step

/-- A region is filled with elements and their padding. -/
theorem run_writePadded (region : Region) (elements : Bytes) (count padded extent : Nat)
    (next : Unit → Attempt α) :
    (Decomposition.writePadded region elements count padded extent >>= next).run.run before =
      (next ()).run.run (before.fill region (Layout.padWithFirst
        (Bytes.overwrite (before.arena.messages.read region) 0 elements) count padded extent)) :=
  rfl

/-- A call, after which the attempt goes on only when the call succeeds. -/
theorem run_issue (primitive : Primitive) (input : Bytes) (place : Place)
    (next : Unit → Attempt α) :
    (issue primitive input place >>= next).run.run before =
      .ask ⟨primitive, input, place.read before⟩ fun reply =>
        match reply.status with
        | .ok () => (next ()).run.run (place.write before reply.output)
        | .error error => .done (.error error, place.write before reply.output) := by
  change Program.ask _ _ = _
  congr 1
  funext ⟨status, output⟩
  cases status <;> rfl

/-! ### Scratch space -/

section Grab

variable {slot : Slot} {messages integers bytes boundary : Nat} {region : Region}

/-- A region that the message pool grants is used. -/
theorem run_grabMessages {pool : Pool UInt8}
    (hgrab : before.arena.messages.grab slot bytes = .ok (region, pool))
    (use : Region → Attempt α) :
    (grabMessages slot bytes >>= use).run.run before =
      (use region).run.run { before with arena := { before.arena with messages := pool } } := by
  change (liftM (before.arena.messages.grab slot bytes) >>= _ >>= use :
    Attempt α).run.run before = _
  rw [hgrab]
  rfl

/-- A region that the message pool refuses fails the attempt. -/
theorem run_grabMessages_error
    (hgrab : ∃ error, before.arena.messages.grab slot bytes = .error error)
    (use : Region → Attempt α) :
    ∃ error, (grabMessages slot bytes >>= use).run.run before = .done (.error error, before) := by
  obtain ⟨error, hgrab⟩ := hgrab
  refine ⟨error, ?_⟩
  change (liftM (before.arena.messages.grab slot bytes) >>= _ >>= use :
    Attempt α).run.run before = _
  rw [hgrab]
  rfl

/-- A region that the integer pool grants is used. -/
theorem run_grabIntegers {pool : Pool Nat}
    (hgrab : before.arena.integers.grab slot bytes = .ok (region, pool))
    (use : Region → Attempt α) :
    (grabIntegers slot bytes >>= use).run.run before =
      (use region).run.run { before with arena := { before.arena with integers := pool } } := by
  change (liftM (before.arena.integers.grab slot bytes) >>= _ >>= use :
    Attempt α).run.run before = _
  rw [hgrab]
  rfl

/-- A region that the integer pool refuses fails the attempt. -/
theorem run_grabIntegers_error
    (hgrab : ∃ error, before.arena.integers.grab slot bytes = .error error)
    (use : Region → Attempt α) :
    ∃ error, (grabIntegers slot bytes >>= use).run.run before = .done (.error error, before) := by
  obtain ⟨error, hgrab⟩ := hgrab
  refine ⟨error, ?_⟩
  change (liftM (before.arena.integers.grab slot bytes) >>= _ >>= use :
    Attempt α).run.run before = _
  rw [hgrab]
  rfl

/-- The first region of the message pool, for which there is room. -/
theorem run_grabMessages_first (hshape : before.arena.messages.shape = .free 1 messages)
    (hfits : bytes ≤ messages) (use : Region → Attempt α) :
    (grabMessages .first bytes >>= use).run.run before =
      (use ⟨.first, 0, bytes⟩).run.run (before.holdMessages .first bytes) :=
  run_grabMessages (Pool.grab_first hshape
    (Pool.elementsFor_one (congrArg Shape.wordSize hshape) bytes) hfits) use

/-- More than the whole message pool is refused. -/
theorem run_grabMessages_first_error (hshape : before.arena.messages.shape = .free 1 messages)
    (hlarge : messages < bytes) (use : Region → Attempt α) :
    ∃ error, (grabMessages .first bytes >>= use).run.run before = .done (.error error, before) :=
  run_grabMessages_error (Pool.grab_first_error hshape
    (Pool.elementsFor_one (congrArg Shape.wordSize hshape) bytes) hlarge) use

/-- The second region of the message pool, which begins where the first one ends. -/
theorem run_grabMessages_second (hshape : before.arena.messages.shape = .half 1 messages boundary)
    (hfits : bytes ≤ messages - boundary) (use : Region → Attempt α) :
    (grabMessages .second bytes >>= use).run.run before =
      (use ⟨.second, boundary, bytes⟩).run.run (before.holdMessages .second bytes) :=
  run_grabMessages (Pool.grab_second hshape
    (Pool.elementsFor_one (congrArg Shape.wordSize hshape) bytes) hfits) use

/-- More than what the first region leaves of the message pool is refused. -/
theorem run_grabMessages_second_error
    (hshape : before.arena.messages.shape = .half 1 messages boundary)
    (hlarge : messages - boundary < bytes) (use : Region → Attempt α) :
    ∃ error, (grabMessages .second bytes >>= use).run.run before = .done (.error error, before) :=
  run_grabMessages_error (Pool.grab_second_error hshape
    (Pool.elementsFor_one (congrArg Shape.wordSize hshape) bytes) hlarge) use

/-! ### Layouts -/

section Layouts

/-- A count takes up one element of the integer pool. -/
theorem elementsFor_counts {pool : Pool Nat} (hword : pool.wordSize = countSize) (count : Nat) :
    pool.elementsFor (count * countSize) = count :=
  Pool.elementsFor_mul hword (by decide) count

variable {n : Nat} {member : Member} (hmember : member.size = n)
  (hshape : before.arena.integers.shape = .free countSize integers)

include hmember hshape

/-- Room for the counts and displacements of all ranks. -/
theorem run_grabLayout (hroom : 2 * n ≤ integers) (layout : Region × Region → Attempt α) :
    ∃ after, before.UpToLayout after ∧ (grabLayout member >>= layout).run.run before =
      (layout (⟨.first, 0, n⟩, ⟨.second, n, n⟩)).run.run after := by
  have hhalf := @Pool.shape_hold_first _ _ _ _ n hshape
  have hfirst := Pool.grab_first hshape (elementsFor_counts (congrArg Shape.wordSize hshape) n)
    (by omega)
  have hsecond := Pool.grab_second hhalf (elementsFor_counts (congrArg Shape.wordSize hhalf) n)
    (by omega)
  simp only [grabLayout, hmember, bind_assoc, pure_bind]
  rw [run_grabIntegers hfirst, run_grabIntegers hsecond]
  exact ⟨(before.holdIntegers .first n).holdIntegers .second n, ⟨rfl, rfl, rfl, rfl⟩, rfl⟩

/-- Without room for a count and a displacement for each rank, the attempt fails. -/
theorem run_grabLayout_error (hsmall : integers < 2 * n) (layout : Region × Region → Attempt α) :
    ∃ (error : Error) (after : Workspace), before.UpToLayout after ∧
      (grabLayout member >>= layout).run.run before = .done (.error error, after) := by
  have hlength := elementsFor_counts (congrArg Shape.wordSize hshape) n
  simp only [grabLayout, hmember, bind_assoc, pure_bind]
  rcases Nat.lt_or_ge integers n with hlarge | hone
  · obtain ⟨error, hcourse⟩ :=
      run_grabIntegers_error (Pool.grab_first_error hshape hlength hlarge) _
    exact ⟨error, before, .refl before, hcourse⟩
  · have hhalf := @Pool.shape_hold_first _ _ _ _ n hshape
    rw [run_grabIntegers (Pool.grab_first hshape hlength hone)]
    have htwo : integers - n < n := by omega
    obtain ⟨error, hcourse⟩ := @run_grabIntegers_error _ (before.holdIntegers .first n) _ _
      (Pool.grab_second_error hhalf (elementsFor_counts (congrArg Shape.wordSize hhalf) n) htwo) _
    exact ⟨error, before.holdIntegers .first n, ⟨rfl, rfl, rfl, rfl⟩, hcourse⟩

/-- The layout of equal blocks, whose numbers fit in a header. -/
theorem run_uniformLayout {count : Nat} (hroom : 2 * n ≤ integers)
    (hfits : Layout.UniformFits n count) (use : List Nat × List Nat → Attempt α) :
    ∃ after, before.UpToLayout after ∧
      (Decomposition.uniformLayout member count >>= use).run.run before =
        (use (Layout.equalCounts n count, Layout.equalDispls n count)).run.run after := by
  simp only [Decomposition.uniformLayout, hmember, bind_assoc, pure_bind]
  obtain ⟨after, hafter, hcourse⟩ := run_grabLayout hmember hshape hroom _
  rw [hcourse, run_lift (Layout.uniform_eq_ok hfits)]
  exact ⟨_, (hafter.store _ _).store _ _, rfl⟩

/-- Without room for the layout, or with a count or displacement too large for it, the attempt
fails. -/
theorem run_uniformLayout_error {count : Nat} (hn : 0 < n)
    (hcause : ¬ (2 * n ≤ integers ∧ Layout.UniformFits n count))
    (use : List Nat × List Nat → Attempt α) :
    ∃ (error : Error) (after : Workspace), before.UpToLayout after ∧
      (Decomposition.uniformLayout member count >>= use).run.run before =
        .done (.error error, after) := by
  simp only [Decomposition.uniformLayout, hmember, bind_assoc, pure_bind]
  by_cases hroom : 2 * n ≤ integers
  · obtain ⟨error, herror⟩ := Layout.uniform_eq_error hn fun hfits => hcause ⟨hroom, hfits⟩
    obtain ⟨after, hafter, hcourse⟩ := run_grabLayout hmember hshape hroom _
    rw [hcourse, run_lift_error herror]
    exact ⟨error, after, hafter, rfl⟩
  · exact run_grabLayout_error hmember hshape (by omega) _

/-- Room for a layout, and the round-robin shares of all ranks. -/
theorem run_grabShares {count : Nat} (hroom : 2 * n ≤ integers) (hsmall : count < UInt32.size)
    (chunk : Nat) (use : Region × Region → List Nat → Attempt α) :
    ∃ after, before.UpToLayout after ∧
      (grabLayout member >>= fun regions =>
        liftM (Layout.roundRobinCounts n count chunk) >>= use regions).run.run before =
        (use (⟨.first, 0, n⟩, ⟨.second, n, n⟩) (Layout.shares n count chunk)).run.run after := by
  obtain ⟨after, hafter, hcourse⟩ := run_grabLayout hmember hshape hroom fun regions =>
    liftM (Layout.roundRobinCounts n count chunk) >>= use regions
  rw [hcourse, run_lift (Layout.roundRobinCounts_eq_ok hsmall chunk)]
  exact ⟨after, hafter, rfl⟩

/-- Without room for the layout, or with too many elements to deal out, the attempt fails. -/
theorem run_grabShares_error {count : Nat} (hcause : ¬ (2 * n ≤ integers ∧ count < UInt32.size))
    (chunk : Nat) (use : Region × Region → List Nat → Attempt α) :
    ∃ (error : Error) (after : Workspace), before.UpToLayout after ∧
      (grabLayout member >>= fun regions =>
        liftM (Layout.roundRobinCounts n count chunk) >>= use regions).run.run before =
        .done (.error error, after) := by
  by_cases hroom : 2 * n ≤ integers
  · obtain ⟨after, hafter, hcourse⟩ := run_grabLayout hmember hshape hroom fun regions =>
      liftM (Layout.roundRobinCounts n count chunk) >>= use regions
    have herror := Layout.roundRobinCounts_eq_error (fun hsmall => hcause ⟨hroom, hsmall⟩) n chunk
    rw [hcourse, run_lift_error herror]
    exact ⟨_, after, hafter, rfl⟩
  · exact run_grabLayout_error hmember hshape (by omega) _

end Layouts

end Grab

end Attempt

end CollectiveTuner
