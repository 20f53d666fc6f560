import CollectiveTuner.Files
import CollectiveTuner.Scratch.Pool

/-!
# The scratch arena

An arena holds one pool for message bytes and one for counts and displacements. Releasing it
frees both pools at once.
-/

namespace CollectiveTuner.Scratch

/-- The size of the message pool unless settings say otherwise. -/
def defaultMessageBytes : Nat := 100000000

/-- The size of the integer pool unless settings say otherwise. -/
def defaultIntegerBytes : Nat := 10000

/-- The size of a count or displacement in the integer pool. -/
def countSize : Nat := 4

/-- One of the two pools of an arena. -/
inductive PoolKind
  | message
  | integer
  deriving DecidableEq, Repr

/-- Scratch space of one rank. -/
structure Arena where
  /-- Bytes of messages. -/
  messages : Pool UInt8
  /-- Counts and displacements. -/
  integers : Pool Nat

namespace Arena

/-- An arena whose pools have the given sizes in bytes. -/
def allocate (refusedBytes messageBytes integerBytes : Nat) : Except Error Arena := do
  let messages ← Pool.allocate refusedBytes "msg" 1 0 messageBytes
  let integers ← Pool.allocate refusedBytes "int" countSize 0 integerBytes
  pure { messages, integers }

/-- Hands out a region of one pool. -/
def grab (arena : Arena) (kind : PoolKind) (slot : Slot) (bytes : Nat) :
    Except Error (Region × Arena) :=
  match kind with
  | .message => do
    let (region, messages) ← arena.messages.grab slot bytes
    pure (region, { arena with messages })
  | .integer => do
    let (region, integers) ← arena.integers.grab slot bytes
    pure (region, { arena with integers })

/-- Takes both slots of one pool back. -/
def releasePool (arena : Arena) : PoolKind → Arena
  | .message => { arena with messages := arena.messages.release }
  | .integer => { arena with integers := arena.integers.release }

/-- Takes both slots of both pools back. -/
def release (arena : Arena) : Arena :=
  { messages := arena.messages.release, integers := arena.integers.release }

/-- Both slots of both pools are free. -/
def IsFree (arena : Arena) : Prop :=
  arena.messages.firstHeld = false ∧ arena.messages.secondHeld = false ∧
    arena.integers.firstHeld = false ∧ arena.integers.secondHeld = false

end Arena

end CollectiveTuner.Scratch
