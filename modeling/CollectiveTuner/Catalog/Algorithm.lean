import CollectiveTuner.Error

/-!
# Algorithms

Every operation has a native algorithm, and for most there are decompositions that build it
from other operations. An algorithm is known by its identifier, which is unique within its
operation, and by its name, which is unique over all operations but for the native one.
-/

namespace CollectiveTuner

/-- The algorithms of each operation. -/
inductive Algorithm : Collective → Type
  | native (op : Collective) : Algorithm op
  | allgatherAsAllgatherv : Algorithm .allgather
  | allgatherAsAllreduce : Algorithm .allgather
  | allgatherAsAlltoall : Algorithm .allgather
  | allgatherAsGatherBcast : Algorithm .allgather
  | allreduceAsReduceBcast : Algorithm .allreduce
  | allreduceAsReduceScatterBlockAllgather : Algorithm .allreduce
  | allreduceAsReduceScatterAllgatherv : Algorithm .allreduce
  | alltoallAsAlltoallv : Algorithm .alltoall
  | bcastAsAllgatherv : Algorithm .bcast
  | bcastAsScatterAllgather : Algorithm .bcast
  | gatherAsAllgather : Algorithm .gather
  | gatherAsGatherv : Algorithm .gather
  | gatherAsReduce : Algorithm .gather
  | reduceAsAllreduce : Algorithm .reduce
  | reduceAsReduceScatterBlockGather : Algorithm .reduce
  | reduceAsReduceScatterGatherv : Algorithm .reduce
  | reduceScatterBlockAsReduceScatter : Algorithm .reduceScatterBlock
  | scanAsExscanReduceLocal : Algorithm .scan
  | scatterAsBcast : Algorithm .scatter
  | scatterAsScatterv : Algorithm .scatter
  deriving DecidableEq, Repr

/-- An algorithm as users see it: its identifier and its name. -/
structure Choice where
  /-- The identifier of the algorithm. -/
  id : AlgorithmId
  /-- The name of the algorithm. -/
  name : String
  deriving DecidableEq, Repr

namespace Algorithm

/-- The algorithms of an operation, in the order of their identifiers. -/
def all : (op : Collective) → List (Algorithm op)
  | .allgather =>
    [native .allgather,
     allgatherAsAllgatherv,
     allgatherAsAllreduce,
     allgatherAsAlltoall,
     allgatherAsGatherBcast]
  | .allreduce =>
    [native .allreduce,
     allreduceAsReduceBcast,
     allreduceAsReduceScatterBlockAllgather,
     allreduceAsReduceScatterAllgatherv]
  | .alltoall => [native .alltoall, alltoallAsAlltoallv]
  | .bcast => [native .bcast, bcastAsAllgatherv, bcastAsScatterAllgather]
  | .gather => [native .gather, gatherAsAllgather, gatherAsGatherv, gatherAsReduce]
  | .reduce =>
    [native .reduce,
     reduceAsAllreduce,
     reduceAsReduceScatterBlockGather,
     reduceAsReduceScatterGatherv]
  | .reduceScatterBlock => [native .reduceScatterBlock, reduceScatterBlockAsReduceScatter]
  | .scan => [native .scan, scanAsExscanReduceLocal]
  | .scatter => [native .scatter, scatterAsBcast, scatterAsScatterv]

/-- The identifier of an algorithm. -/
def id {op : Collective} : Algorithm op → AlgorithmId
  | native _ => defaultAlgorithm
  | allgatherAsAllgatherv | allreduceAsReduceBcast | alltoallAsAlltoallv | bcastAsAllgatherv
  | gatherAsAllgather | reduceAsAllreduce | reduceScatterBlockAsReduceScatter
  | scanAsExscanReduceLocal | scatterAsBcast => 1
  | allgatherAsAllreduce | allreduceAsReduceScatterBlockAllgather | bcastAsScatterAllgather
  | gatherAsGatherv | reduceAsReduceScatterBlockGather | scatterAsScatterv => 2
  | allgatherAsAlltoall | allreduceAsReduceScatterAllgatherv | gatherAsReduce
  | reduceAsReduceScatterGatherv => 3
  | allgatherAsGatherBcast => 4

/-- The name of an algorithm. -/
def name {op : Collective} : Algorithm op → String
  | native _ => "default"
  | allgatherAsAllgatherv => "allgather_as_allgatherv"
  | allgatherAsAllreduce => "allgather_as_allreduce"
  | allgatherAsAlltoall => "allgather_as_alltoall"
  | allgatherAsGatherBcast => "allgather_as_gather_bcast"
  | allreduceAsReduceBcast => "allreduce_as_reduce_bcast"
  | allreduceAsReduceScatterBlockAllgather => "allreduce_as_reducescatterblock_allgather"
  | allreduceAsReduceScatterAllgatherv => "allreduce_as_reducescatter_allgatherv"
  | alltoallAsAlltoallv => "alltoall_as_alltoallv"
  | bcastAsAllgatherv => "bcast_as_allgatherv"
  | bcastAsScatterAllgather => "bcast_as_scatter_allgather"
  | gatherAsAllgather => "gather_as_allgather"
  | gatherAsGatherv => "gather_as_gatherv"
  | gatherAsReduce => "gather_as_reduce"
  | reduceAsAllreduce => "reduce_as_allreduce"
  | reduceAsReduceScatterBlockGather => "reduce_as_reducescatterblock_gather"
  | reduceAsReduceScatterGatherv => "reduce_as_reducescatter_gatherv"
  | reduceScatterBlockAsReduceScatter => "reducescatterblock_as_reduce_scatter"
  | scanAsExscanReduceLocal => "scan_as_exscan_reducelocal"
  | scatterAsBcast => "scatter_as_bcast"
  | scatterAsScatterv => "scatter_as_scatterv"

/-- The capitalised short name of an algorithm, as diagnostics write it. -/
def label {op : Collective} : Algorithm op → String
  | native _ => "Default"
  | allgatherAsAllgatherv => "AsAllgatherv"
  | allgatherAsAllreduce => "AsAllreduce"
  | allgatherAsAlltoall => "AsAlltoall"
  | allgatherAsGatherBcast => "AsGatherBcast"
  | allreduceAsReduceBcast => "AsReduceBcast"
  | allreduceAsReduceScatterBlockAllgather => "AsReduceScatterBlockAllgather"
  | allreduceAsReduceScatterAllgatherv => "AsReduceScatterAllgatherv"
  | alltoallAsAlltoallv => "AsAlltoallv"
  | bcastAsAllgatherv => "AsAllgatherv"
  | bcastAsScatterAllgather => "AsScatterAllgather"
  | gatherAsAllgather => "AsAllgather"
  | gatherAsGatherv => "AsGatherv"
  | gatherAsReduce => "AsReduce"
  | reduceAsAllreduce => "AsAllreduce"
  | reduceAsReduceScatterBlockGather => "AsReduceScatterBlockGather"
  | reduceAsReduceScatterGatherv => "AsReduceScatterGatherv"
  | reduceScatterBlockAsReduceScatter => "AsReduceScatter"
  | scanAsExscanReduceLocal => "AsExscanReduceLocal"
  | scatterAsBcast => "AsBcast"
  | scatterAsScatterv => "AsScatterv"

/-- The algorithm of an operation with this identifier. -/
def ofId? (op : Collective) (id : AlgorithmId) : Option (Algorithm op) :=
  (all op).find? fun algorithm => algorithm.id == id

end Algorithm

/-- The algorithms of an operation as users see them. -/
def Collective.choices (op : Collective) : List Choice :=
  (Algorithm.all op).map fun algorithm => { id := algorithm.id, name := algorithm.name }

end CollectiveTuner
