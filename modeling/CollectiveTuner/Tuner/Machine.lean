import CollectiveTuner.Machine
import CollectiveTuner.Tuner

/-!
# Calls on a machine

A call begins with lengths. They are products in words, and a buffer that is too short takes a
stand-in of the needed length, for which there has to be memory. A rank that has no such word or no
such memory stops there, before it has used a channel or written anything, and gives no result. Only
a root outside the group is refused earlier. From then on the call goes on as `Tuner.perform` says,
where lengths are numbers.

The build here is one whose products stop. One whose products wrap around does the same as long as
the lengths are words.
-/

namespace CollectiveTuner

namespace Host

/-- A buffer of so many bytes can be had: the caller's is long enough, or there is memory for as
many zeros. -/
def CanSupply (host : Host) (needed : Nat) (buffer : Bytes) : Prop :=
  needed ≤ buffer.length ∨ needed < host.refusedBytes

instance (host : Host) (needed : Nat) (buffer : Bytes) :
    Decidable (host.CanSupply needed buffer) :=
  inferInstanceAs (Decidable (_ ∨ _))

/-- The lengths that a rank computes for a call are words, and it can have both buffers. -/
def CanServe (host : Host) (request : Request) (me : Member) (input output : Bytes) : Prop :=
  request.messageBytes < UInt64.size ∧
    (request.inputBytes me < UInt64.size ∧ host.CanSupply (request.inputBytes me) input) ∧
    request.outputBytes me < UInt64.size ∧ host.CanSupply (request.outputBytes me) output

instance (host : Host) (request : Request) (me : Member) (input output : Bytes) :
    Decidable (host.CanServe request me input output) :=
  inferInstanceAs (Decidable (_ ∧ _))

end Host

namespace Tuner

/-- Serves one collective call on a machine. The rank stops without a result when it cannot
measure or replace the caller's buffers. -/
def performOn (host : Host) (arithmetic : FloatArithmetic) (tuner : Tuner) (request : Request)
    (input output : Bytes) : Script (Option Outcome) := do
  if (∀ root ∈ request.root?, root < tuner.me.size) ∧
      ¬ host.CanServe request tuner.me input output then
    pure none
  else
    let outcome ← tuner.perform arithmetic request input output
    pure (some outcome)

end Tuner

end CollectiveTuner
