import CollectiveTuner.Error
import CollectiveTuner.Program

/-!
# Calls on a communicator

A `Primitive` is a communication operation with all its arguments but the buffers. A `Call`
adds the bytes to read and the bytes to write over, and a `Reply` says how the call ended and
what the written buffer holds. A `Script` is a rank's program of calls, whoever answers them.
-/

namespace CollectiveTuner

/-- A communication operation with all its arguments but the buffers. Counts are in elements,
displacements too, and ranks are numbered from zero. -/
inductive Primitive
  | send (dest : Nat)
  | receive (source : Nat)
  | bcast (count : Nat) (dtype : Datatype) (root : Nat)
  | scatter (count : Nat) (dtype : Datatype) (root : Nat)
  | scatterv (counts displs : List Nat) (receiveCount : Nat) (dtype : Datatype) (root : Nat)
  | gather (count : Nat) (dtype : Datatype) (root : Nat)
  | gatherv (sendCount : Nat) (counts displs : List Nat) (dtype : Datatype) (root : Nat)
  | allgather (count : Nat) (dtype : Datatype)
  | allgatherv (sendCount : Nat) (counts displs : List Nat) (dtype : Datatype)
  | allgathervInPlace (counts displs : List Nat) (dtype : Datatype)
  | alltoall (count : Nat) (dtype : Datatype)
  | alltoallv (sendCounts sendDispls receiveCounts receiveDispls : List Nat) (dtype : Datatype)
  | reduce (count : Nat) (dtype : Datatype) (op : ReduceOp) (root : Nat)
  | allreduce (count : Nat) (dtype : Datatype) (op : ReduceOp)
  | reduceScatter (receiveCounts : List Nat) (dtype : Datatype) (op : ReduceOp)
  | reduceScatterBlock (receiveCount : Nat) (dtype : Datatype) (op : ReduceOp)
  | scan (count : Nat) (dtype : Datatype) (op : ReduceOp)
  | exscan (count : Nat) (dtype : Datatype) (op : ReduceOp)
  deriving DecidableEq, Repr

/-- The name of a communication operation. -/
def Primitive.name : Primitive → String
  | send .. => "send"
  | receive .. => "recv"
  | bcast .. => "bcast"
  | scatter .. => "scatter"
  | scatterv .. => "scatterv"
  | gather .. => "gather"
  | gatherv .. => "gatherv"
  | allgather .. => "allgather"
  | allgatherv .. => "allgatherv"
  | allgathervInPlace .. => "allgatherv_in_place"
  | alltoall .. => "alltoall"
  | alltoallv .. => "alltoallv"
  | reduce .. => "reduce"
  | allreduce .. => "allreduce"
  | reduceScatter .. => "reduce_scatter"
  | reduceScatterBlock .. => "reduce_scatter_block"
  | scan .. => "scan"
  | exscan .. => "exscan"

/-- A primitive applied to the caller's buffers. Operations that work in place, and those that
only receive, do not read `input`. -/
structure Call where
  /-- The operation and its arguments. -/
  primitive : Primitive
  /-- The bytes that the operation reads. -/
  input : Bytes
  /-- The bytes that the operation may write over. -/
  output : Bytes
  deriving DecidableEq, Repr

/-- What a call comes back with. A failed call may have written part of its buffer. -/
structure Reply where
  /-- Whether the call succeeded. -/
  status : Except Error Unit
  /-- The writable buffer after the call. It is as long as before. -/
  output : Bytes

/-- What one rank does on a communicator. -/
abbrev Script (α : Type) := Program Call (fun _ => Reply) α

namespace Script

/-- Makes one call. -/
def call (primitive : Primitive) (input output : Bytes) : Script Reply :=
  .ask { primitive, input, output } .done

end Script

end CollectiveTuner
