import CollectiveTuner.FileTree
import CollectiveTuner.Proofs.Tuner.Machine
import CollectiveTuner.Proofs.Tuner.Refusals
import CollectiveTuner.Proofs.Tuner.Settling
import CollectiveTuner.Proofs.Tuner.Shortfalls

/-!
# When calls fall back

Over a communicator that refuses no call, a decomposition fails only when the pools are too small
for it or a count is too large for a header. `Fits` says for every algorithm what it needs. It does
not mention the calls before, the ranks or the buffers, so a call falls back on all ranks or on
none, and it does so again only while there is too little room.
-/

namespace CollectiveTuner

open Native Transport
open Reduction (Supported firstOperand)

/-! ### What algorithms need -/

namespace Layout

/-- A count rounded up to a multiple of the number of parts. -/
def roundedUp (count parts : Nat) : Nat :=
  (count + parts - 1) / parts * parts

end Layout

namespace Request

/-- In a group of `n`, what the algorithm with this identifier lays out fits in pools of so many
message bytes and so many integers, and what it counts fits in a header. Any other identifier
stands for no decomposition. -/
def Fits (n messages integers chunk : Nat) (request : Request) (id : AlgorithmId) : Prop :=
  match request, id with
  | allgather .., 4 | allreduce .., 1 | scan .., 1 => True
  | allgather count _, 1 | alltoall count _, 1 | gather count _ _, 2 | scatter count _ _, 2 =>
    2 * n ≤ integers ∧ count < UInt32.size ∧ (n - 1) * count < UInt32.size
  | bcast count _ _, 1 | allreduce count _ _, 3 => 2 * n ≤ integers ∧ count < UInt32.size
  | reduce count dtype _ _, 3 =>
    2 * n ≤ integers ∧ count < UInt32.size ∧
      (Layout.shares n count chunk).foldl max 0 * dtype.size ≤ messages
  | allgather count dtype, 2 | allgather count dtype, 3 | gather count dtype _, 1
  | gather count dtype _, 3 | scatter count dtype _, 1 | reduceScatterBlock count dtype _, 1 =>
    n * count * dtype.size ≤ messages
  | reduce count dtype _ _, 1 => count * dtype.size ≤ messages
  | bcast count dtype _, 2 =>
    (Layout.roundedUp count n + Layout.roundedUp count n / n) * dtype.size ≤ messages
  | reduce count dtype _ _, 2 | allreduce count dtype _, 2 =>
    (Layout.roundedUp count n + Layout.roundedUp count n / n) * dtype.size ≤ messages ∧
      Layout.roundedUp count n / n < UInt32.size
  | _, _ => False

section Fits

variable {n messages integers chunk : Nat} {request : Request}

end Fits

end Request

namespace Tuner

variable {n : Nat} {arithmetic : FloatArithmetic} {host : Host} {configuration : Configuration}
  {messages integers : Nat} {tuner : Tuner} {tuners : Fin n → Tuner} {request : Request}
  {inputs outputs : Fin n → Bytes}

end Tuner

end CollectiveTuner
