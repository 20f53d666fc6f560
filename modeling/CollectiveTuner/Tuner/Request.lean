import CollectiveTuner.Catalog.Algorithm
import CollectiveTuner.Decomposition.Combining
import CollectiveTuner.Decomposition.Movement

/-!
# Requests for a collective operation

A request is one collective call with its arguments but the buffers. It fixes the native
primitive, how long the buffers have to be on each rank, and what each algorithm does.
-/

namespace CollectiveTuner

/-- A collective call without its buffers. -/
inductive Request
  | allgather (count : Nat) (dtype : Datatype)
  | allreduce (count : Nat) (dtype : Datatype) (op : ReduceOp)
  | alltoall (count : Nat) (dtype : Datatype)
  | bcast (count : Nat) (dtype : Datatype) (root : Nat)
  | gather (count : Nat) (dtype : Datatype) (root : Nat)
  | reduce (count : Nat) (dtype : Datatype) (op : ReduceOp) (root : Nat)
  | reduceScatterBlock (count : Nat) (dtype : Datatype) (op : ReduceOp)
  | scan (count : Nat) (dtype : Datatype) (op : ReduceOp)
  | scatter (count : Nat) (dtype : Datatype) (root : Nat)
  deriving DecidableEq, Repr

namespace Request

/-- The operation requested. -/
def collective : Request → Collective
  | allgather .. => .allgather
  | allreduce .. => .allreduce
  | alltoall .. => .alltoall
  | bcast .. => .bcast
  | gather .. => .gather
  | reduce .. => .reduce
  | reduceScatterBlock .. => .reduceScatterBlock
  | scan .. => .scan
  | scatter .. => .scatter

/-- The root, if the operation has one. -/
def root? : Request → Option Nat
  | bcast _ _ root | gather _ _ root | reduce _ _ _ root | scatter _ _ root => some root
  | _ => none

/-- The bytes of one vector of `count` elements. They are the size by which an algorithm is
selected and recorded. -/
def messageBytes : Request → Nat
  | allgather count dtype | allreduce count dtype _ | alltoall count dtype | bcast count dtype _
  | gather count dtype _ | reduce count dtype _ _ | reduceScatterBlock count dtype _
  | scan count dtype _ | scatter count dtype _ => count * dtype.size

/-- The native primitive for the request. -/
def primitive : Request → Primitive
  | allgather count dtype => .allgather count dtype
  | allreduce count dtype op => .allreduce count dtype op
  | alltoall count dtype => .alltoall count dtype
  | bcast count dtype root => .bcast count dtype root
  | gather count dtype root => .gather count dtype root
  | reduce count dtype op root => .reduce count dtype op root
  | reduceScatterBlock count dtype op => .reduceScatterBlock count dtype op
  | scan count dtype op => .scan count dtype op
  | scatter count dtype root => .scatter count dtype root

/-- The bytes that the input buffer of a rank has to have. A bcast reads none. -/
def inputBytes (request : Request) (me : Member) : Nat :=
  match request with
  | bcast .. => 0
  | alltoall .. | reduceScatterBlock .. => me.size * request.messageBytes
  | scatter _ _ root => if me.rank = root then me.size * request.messageBytes else 0
  | _ => request.messageBytes

/-- The bytes that the output buffer of a rank has to have. -/
def outputBytes (request : Request) (me : Member) : Nat :=
  match request with
  | allgather .. | alltoall .. => me.size * request.messageBytes
  | gather _ _ root => if me.rank = root then me.size * request.messageBytes else 0
  | reduce _ _ _ root => if me.rank = root then request.messageBytes else 0
  | _ => request.messageBytes

/-- The decomposition that an algorithm stands for. The native algorithm stands for none. -/
def decomposition? (arithmetic : FloatArithmetic) (me : Member) (chunk : Nat) (input : Bytes) :
    (request : Request) → Algorithm request.collective → Option (Attempt Unit)
  | allgather count dtype, algorithm =>
    match algorithm with
    | .native _ => none
    | .allgatherAsAllgatherv =>
      some (Decomposition.allgatherAsAllgatherv me input count dtype)
    | .allgatherAsAllreduce =>
      some (Decomposition.allgatherAsAllreduce me input count dtype)
    | .allgatherAsAlltoall =>
      some (Decomposition.allgatherAsAlltoall me input count dtype)
    | .allgatherAsGatherBcast =>
      some (Decomposition.allgatherAsGatherBcast me input count dtype)
  | allreduce count dtype op, algorithm =>
    match algorithm with
    | .native _ => none
    | .allreduceAsReduceBcast =>
      some (Decomposition.allreduceAsReduceBcast input count dtype op)
    | .allreduceAsReduceScatterBlockAllgather =>
      some (Decomposition.allreduceAsReduceScatterBlockAllgather me input count dtype op)
    | .allreduceAsReduceScatterAllgatherv =>
      some (Decomposition.allreduceAsReduceScatterAllgatherv me input count dtype op chunk)
  | alltoall count dtype, algorithm =>
    match algorithm with
    | .native _ => none
    | .alltoallAsAlltoallv =>
      some (Decomposition.alltoallAsAlltoallv me input count dtype)
  | bcast count dtype root, algorithm =>
    match algorithm with
    | .native _ => none
    | .bcastAsAllgatherv =>
      some (Decomposition.bcastAsAllgatherv me count dtype root)
    | .bcastAsScatterAllgather =>
      some (Decomposition.bcastAsScatterAllgather me count dtype root)
  | gather count dtype root, algorithm =>
    match algorithm with
    | .native _ => none
    | .gatherAsAllgather =>
      some (Decomposition.gatherAsAllgather me input count dtype root)
    | .gatherAsGatherv =>
      some (Decomposition.gatherAsGatherv me input count dtype root)
    | .gatherAsReduce =>
      some (Decomposition.gatherAsReduce me input count dtype root)
  | reduce count dtype op root, algorithm =>
    match algorithm with
    | .native _ => none
    | .reduceAsAllreduce =>
      some (Decomposition.reduceAsAllreduce me input count dtype op root)
    | .reduceAsReduceScatterBlockGather =>
      some (Decomposition.reduceAsReduceScatterBlockGather me input count dtype op root)
    | .reduceAsReduceScatterGatherv =>
      some (Decomposition.reduceAsReduceScatterGatherv me input count dtype op root chunk)
  | reduceScatterBlock count dtype op, algorithm =>
    match algorithm with
    | .native _ => none
    | .reduceScatterBlockAsReduceScatter =>
      some (Decomposition.reduceScatterBlockAsReduceScatter me input count dtype op)
  | scan count dtype op, algorithm =>
    match algorithm with
    | .native _ => none
    | .scanAsExscanReduceLocal =>
      some (Decomposition.scanAsExscanReduceLocal arithmetic me input count dtype op)
  | scatter count dtype root, algorithm =>
    match algorithm with
    | .native _ => none
    | .scatterAsBcast =>
      some (Decomposition.scatterAsBcast me input count dtype root)
    | .scatterAsScatterv =>
      some (Decomposition.scatterAsScatterv me input count dtype root)

end Request

end CollectiveTuner
