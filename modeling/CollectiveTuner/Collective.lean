/-!
# The nine collective operations

These are the operations whose algorithm can be replaced. Tables that hold one entry for
each of them are functions on `Collective`, and `update` changes one entry.
-/

namespace CollectiveTuner

/-- A collective operation whose algorithm can be replaced. -/
inductive Collective
  | allgather
  | allreduce
  | alltoall
  | bcast
  | gather
  | reduce
  | reduceScatterBlock
  | scan
  | scatter
  deriving DecidableEq, Repr

namespace Collective

/-- All operations, in table order. -/
def all : List Collective :=
  [allgather, allreduce, alltoall, bcast, gather, reduce, reduceScatterBlock, scan, scatter]

/-- The list of all operations leaves none out. -/
theorem mem_all (op : Collective) : op ∈ all := by
  cases op <;> decide

/-- The position of the operation in `all`. -/
def index : Collective → Nat
  | allgather => 0
  | allreduce => 1
  | alltoall => 2
  | bcast => 3
  | gather => 4
  | reduce => 5
  | reduceScatterBlock => 6
  | scan => 7
  | scatter => 8

/-- The name of the operation in the message-passing interface. -/
def name : Collective → String
  | allgather => "MPI_Allgather"
  | allreduce => "MPI_Allreduce"
  | alltoall => "MPI_Alltoall"
  | bcast => "MPI_Bcast"
  | gather => "MPI_Gather"
  | reduce => "MPI_Reduce"
  | reduceScatterBlock => "MPI_Reduce_scatter_block"
  | scan => "MPI_Scan"
  | scatter => "MPI_Scatter"

/-- The name by which users select a module for the operation. -/
def shortName : Collective → String
  | allgather => "allgather"
  | allreduce => "allreduce"
  | alltoall => "alltoall"
  | bcast => "bcast"
  | gather => "gather"
  | reduce => "reduce"
  | reduceScatterBlock => "reduce_scatter_block"
  | scan => "scan"
  | scatter => "scatter"

/-- The capitalised name of the operation, as diagnostics write it. -/
def label : Collective → String
  | allgather => "Allgather"
  | allreduce => "Allreduce"
  | alltoall => "Alltoall"
  | bcast => "Bcast"
  | gather => "Gather"
  | reduce => "Reduce"
  | reduceScatterBlock => "ReduceScatterBlock"
  | scan => "Scan"
  | scatter => "Scatter"

/-- The operation with this interface name. -/
def ofName? (name : String) : Option Collective :=
  all.find? fun op => op.name == name

/-- The operation with this short name. -/
def ofShortName? (name : String) : Option Collective :=
  all.find? fun op => op.shortName == name

/-- The operation distinguishes one rank, the root. -/
def isRooted : Collective → Bool
  | bcast | gather | reduce | scatter => true
  | _ => false

/-- The table `entries` with the entry for `op` replaced. -/
def update {α : Type} (entries : Collective → α) (op : Collective) (entry : α) : Collective → α :=
  fun other => if other = op then entry else entries other

/-- An updated table has the new entry where it was updated. -/
@[simp] theorem update_same {α : Type} (entries : Collective → α) (op : Collective) (entry : α) :
    update entries op entry op = entry := by
  simp [update]

/-- An updated table is unchanged elsewhere. -/
theorem update_other {α : Type} (entries : Collective → α) {op other : Collective} (entry : α)
    (hother : other ≠ op) : update entries op entry other = entries other := by
  simp [update, hother]

end Collective

end CollectiveTuner
