import CollectiveTuner.Communicator.Call
import CollectiveTuner.Layout
import CollectiveTuner.Scratch.Arena

/-!
# Attempts at a decomposition

A decomposition makes calls on a communicator, uses scratch space and writes the caller's
buffer. An `Attempt` is such a computation. It may fail at any point, and what it wrote before
stays written; scratch space taken inside `withLease` is given back on every way out.
-/

namespace CollectiveTuner

/-- The place of a rank in its group. -/
structure Member where
  /-- The number of the rank. -/
  rank : Nat
  /-- The number of ranks. -/
  size : Nat
  deriving DecidableEq, Repr

/-- What a decomposition works on. -/
structure Workspace where
  /-- Scratch space. -/
  arena : Scratch.Arena
  /-- The caller's writable buffer. -/
  output : Bytes

/-- A computation of one rank that makes calls and may fail. -/
abbrev Attempt := ExceptT Error (StateT Workspace Script)

/-- Where a call writes. -/
inductive Place
  | output (start length : Nat)
  | scratch (region : Scratch.Region)

namespace Place

/-- The bytes at a place. -/
def read (workspace : Workspace) : Place → Bytes
  | output start length => (workspace.output.drop start).take length
  | scratch region => workspace.arena.messages.read region

/-- Replaces the bytes at a place. -/
def write (workspace : Workspace) (place : Place) (bytes : Bytes) : Workspace :=
  match place with
  | output start _ => { workspace with output := workspace.output.overwrite start bytes }
  | scratch region =>
    { workspace with
      arena := { workspace.arena with messages := workspace.arena.messages.write region bytes } }

end Place

namespace Attempt

open Scratch (Region Slot)

/-- Takes a region of the message pool. -/
def grabMessages (slot : Slot) (bytes : Nat) : Attempt Region := do
  let (region, messages) ← (← get).arena.messages.grab slot bytes
  modify fun workspace => { workspace with arena := { workspace.arena with messages } }
  pure region

/-- Takes a region of the integer pool. -/
def grabIntegers (slot : Slot) (bytes : Nat) : Attempt Region := do
  let (region, integers) ← (← get).arena.integers.grab slot bytes
  modify fun workspace => { workspace with arena := { workspace.arena with integers } }
  pure region

/-- Takes room for the counts and the displacements of all ranks. -/
def grabLayout (me : Member) : Attempt (Region × Region) := do
  let counts ← grabIntegers .first (me.size * Scratch.countSize)
  let displs ← grabIntegers .second (me.size * Scratch.countSize)
  pure (counts, displs)

/-- Stores numbers in a region of the integer pool. -/
def storeIntegers (region : Region) (numbers : List Nat) : Attempt Unit :=
  modify fun workspace =>
    { workspace with
      arena := { workspace.arena with integers := workspace.arena.integers.write region numbers } }

/-- Runs a part of the attempt and gives all scratch space back, also when the part fails. -/
def withLease {α : Type} (body : Attempt α) : Attempt α :=
  ExceptT.mk (StateT.mk fun workspace => do
    let (status, workspace) ← body.run.run workspace
    pure (status, { workspace with arena := workspace.arena.release }))

/-- The bytes of a region of the message pool. -/
def readScratch (region : Region) : Attempt Bytes := do
  pure ((← get).arena.messages.read region)

/-- Replaces the first bytes of a region of the message pool. -/
def writeScratch (region : Region) (bytes : Bytes) : Attempt Unit :=
  modify fun workspace => (Place.scratch region).write workspace bytes

/-- Fails when a block leaves the caller's buffer. -/
def checkOutput (start length : Nat) : Attempt Unit := do
  Bytes.checkBlock (← get).output.length start length

/-- Replaces bytes of the caller's buffer. -/
def writeOutput (start : Nat) (bytes : Bytes) : Attempt Unit :=
  modify fun workspace => { workspace with output := workspace.output.overwrite start bytes }

/-- The whole of the caller's buffer. -/
def wholeOutput : Attempt Place := do
  pure (.output 0 (← get).output.length)

/-- Makes a call that writes to `place`, and fails when the call does. -/
def issue (primitive : Primitive) (input : Bytes) (place : Place) : Attempt Unit := do
  let reply ← ExceptT.lift (StateT.lift (Script.call primitive input (place.read (← get))))
  modify fun workspace => place.write workspace reply.output
  reply.status

end Attempt

end CollectiveTuner
