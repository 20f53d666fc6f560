import CollectiveTuner.Proofs.Decomposition.Pipelines
import CollectiveTuner.Tuner.Request

/-!
# Plans of a request

`plan` lists the calls that a decomposition makes when all of them succeed, and `HasRoom` says
when it gets to make any. They depend on the arguments of the request, on the settings of the
tuner and on the size of the group, and neither depends on the buffers.
-/

namespace CollectiveTuner.Request

open Scratch Reduction

/-- A group of `n` has room for what an algorithm lays out: the pools, which hold so many message
bytes and so many integers, are large enough, and all counts fit in a header. -/
def HasRoom (n messages integers chunk : Nat) :
    (request : Request) → Algorithm request.collective → Prop
  | allgather count dtype, algorithm =>
    match algorithm with
    | .native _ | .allgatherAsGatherBcast => True
    | .allgatherAsAllgatherv => 2 * n ≤ integers ∧ Layout.UniformFits n count
    | .allgatherAsAllreduce | .allgatherAsAlltoall => n * (count * dtype.size) ≤ messages
  | allreduce count dtype _, algorithm =>
    match algorithm with
    | .native _ | .allreduceAsReduceBcast => True
    | .allreduceAsReduceScatterBlockAllgather =>
      Layout.paddedCount count n * dtype.size + Layout.paddedCount count n / n * dtype.size ≤
        messages
    | .allreduceAsReduceScatterAllgatherv => 2 * n ≤ integers ∧ count < UInt32.size
  | alltoall count _, algorithm =>
    match algorithm with
    | .native _ => True
    | .alltoallAsAlltoallv => 2 * n ≤ integers ∧ Layout.UniformFits n count
  | bcast count dtype _, algorithm =>
    match algorithm with
    | .native _ => True
    | .bcastAsAllgatherv => 2 * n ≤ integers ∧ count < UInt32.size
    | .bcastAsScatterAllgather =>
      Layout.paddedCount count n * dtype.size + Layout.paddedCount count n / n * dtype.size ≤
        messages
  | gather count dtype _, algorithm =>
    match algorithm with
    | .native _ => True
    | .gatherAsAllgather | .gatherAsReduce => n * (count * dtype.size) ≤ messages
    | .gatherAsGatherv => 2 * n ≤ integers ∧ Layout.UniformFits n count
  | reduce count dtype _ _, algorithm =>
    match algorithm with
    | .native _ => True
    | .reduceAsAllreduce => count * dtype.size ≤ messages
    | .reduceAsReduceScatterBlockGather =>
      Layout.paddedCount count n * dtype.size + Layout.paddedCount count n / n * dtype.size ≤
        messages
    | .reduceAsReduceScatterGatherv => 2 * n ≤ integers ∧ count < UInt32.size ∧
        (Layout.shares n count chunk).foldl max 0 * dtype.size ≤ messages
  | reduceScatterBlock count dtype _, algorithm =>
    match algorithm with
    | .native _ => True
    | .reduceScatterBlockAsReduceScatter => n * count * dtype.size ≤ messages
  | scan .., _ => True
  | scatter count dtype _, algorithm =>
    match algorithm with
    | .native _ => True
    | .scatterAsBcast => n * (count * dtype.size) ≤ messages
    | .scatterAsScatterv => 2 * n ≤ integers ∧ Layout.UniformFits n count

/-- The calls of a decomposition. The native algorithm has none. -/
def plan (me : Member) (chunk : Nat) :
    (request : Request) → Algorithm request.collective → List Primitive
  | allgather count dtype, algorithm =>
    match algorithm with
    | .native _ => []
    | .allgatherAsAllgatherv =>
      [.allgatherv count (Layout.equalCounts me.size count) (Layout.equalDispls me.size count)
        dtype]
    | .allgatherAsAllreduce => [.allreduce (me.size * (count * dtype.size)) .uint8 .bitOr]
    | .allgatherAsAlltoall => [.alltoall count dtype]
    | .allgatherAsGatherBcast => [.gather count dtype 0, .bcast (me.size * count) dtype 0]
  | allreduce count dtype op, algorithm =>
    match algorithm with
    | .native _ => []
    | .allreduceAsReduceBcast => [.reduce count dtype op 0, .bcast count dtype 0]
    | .allreduceAsReduceScatterBlockAllgather =>
      [.reduceScatterBlock (Layout.paddedCount count me.size / me.size) dtype op,
        .allgather (Layout.paddedCount count me.size / me.size) dtype]
    | .allreduceAsReduceScatterAllgatherv =>
      [.reduceScatter (Layout.shares me.size count chunk) dtype op,
        .allgathervInPlace (Layout.shares me.size count chunk)
          (Layout.displacements (Layout.shares me.size count chunk)) dtype]
  | alltoall count dtype, algorithm =>
    match algorithm with
    | .native _ => []
    | .alltoallAsAlltoallv =>
      [.alltoallv (Layout.equalCounts me.size count) (Layout.equalDispls me.size count)
        (Layout.equalCounts me.size count) (Layout.equalDispls me.size count) dtype]
  | bcast count dtype root, algorithm =>
    match algorithm with
    | .native _ => []
    | .bcastAsAllgatherv =>
      [.allgathervInPlace (Layout.singleCounts me.size root count)
        (Layout.singleDispls me.size root count) dtype]
    | .bcastAsScatterAllgather =>
      [.scatter (Layout.paddedCount count me.size / me.size) dtype root,
        .allgather (Layout.paddedCount count me.size / me.size) dtype]
  | gather count dtype root, algorithm =>
    match algorithm with
    | .native _ => []
    | .gatherAsAllgather => [.allgather count dtype]
    | .gatherAsGatherv =>
      [.gatherv count (Layout.equalCounts me.size count) (Layout.equalDispls me.size count) dtype
        root]
    | .gatherAsReduce => [.reduce (me.size * (count * dtype.size)) .uint8 .bitOr root]
  | reduce count dtype op root, algorithm =>
    match algorithm with
    | .native _ => []
    | .reduceAsAllreduce => [.allreduce count dtype op]
    | .reduceAsReduceScatterBlockGather =>
      [.reduceScatterBlock (Layout.paddedCount count me.size / me.size) dtype op,
        .gather (Layout.paddedCount count me.size / me.size) dtype root]
    | .reduceAsReduceScatterGatherv =>
      [.reduceScatter (Layout.shares me.size count chunk) dtype op,
        .gatherv ((Layout.shares me.size count chunk)[me.rank]?.getD 0)
          (Layout.shares me.size count chunk)
          (Layout.displacements (Layout.shares me.size count chunk)) dtype root]
  | reduceScatterBlock count dtype op, algorithm =>
    match algorithm with
    | .native _ => []
    | .reduceScatterBlockAsReduceScatter =>
      [.reduce (me.size * count) dtype op 0, .scatter count dtype 0]
  | scan count dtype op, algorithm =>
    match algorithm with
    | .native _ => []
    | .scanAsExscanReduceLocal => [.exscan count dtype op]
  | scatter count dtype root, algorithm =>
    match algorithm with
    | .native _ => []
    | .scatterAsBcast => [.bcast (me.size * count) dtype root]
    | .scatterAsScatterv =>
      [.scatterv (Layout.equalCounts me.size count) (Layout.equalDispls me.size count) count dtype
        root]

/-- A scan that each rank finishes by itself can be finished when what comes before it passes. -/
def CombinesLocally (request : Request) (passes : Bool) : Prop :=
  match request with
  | scan _ dtype op => passes = true → Supported dtype op
  | _ => True

section Pursues

variable {arithmetic : FloatArithmetic} {pattern : Pattern} {replies : Replies} {position : Nat}
  {before : Workspace} {me : Member} {messages integers chunk : Nat} {input : Bytes}
  {request : Request} {attempt : Attempt Unit}

/-- **Every decomposition works through its plan.** The buffers have to be long enough, which
they are in every call of a tuner. -/
theorem pursues_plan (hanswers : Answers pattern replies)
    (hready : before.arena.Ready messages integers) (hrank : me.rank < me.size)
    (hinput : request.inputBytes me ≤ input.length)
    (houtput : request.outputBytes me ≤ before.output.length)
    (hlocal : request.CombinesLocally (pattern position)) {algorithm : Algorithm request.collective}
    (hattempt : request.decomposition? arithmetic me chunk input algorithm = some attempt) :
    Pursues pattern replies position (attempt.run.run before) before.output
      (request.HasRoom me.size messages integers chunk algorithm)
      (request.plan me chunk algorithm) (Arena.Ready messages integers) := by
  have hsize : 0 < me.size := Nat.zero_lt_of_lt hrank
  cases request with
  | allgather count dtype =>
    cases algorithm with
    | native => cases hattempt
    | allgatherAsAllgatherv =>
      obtain rfl := Option.some.inj hattempt
      exact Decomposition.pursues_allgatherAsAllgatherv hanswers hready hsize
    | allgatherAsAllreduce =>
      obtain rfl := Option.some.inj hattempt
      exact Decomposition.pursues_allgatherAsAllreduce hanswers hready hinput
    | allgatherAsAlltoall =>
      obtain rfl := Option.some.inj hattempt
      exact Decomposition.pursues_allgatherAsAlltoall hanswers hready hinput
    | allgatherAsGatherBcast =>
      obtain rfl := Option.some.inj hattempt
      exact Decomposition.pursues_allgatherAsGatherBcast hanswers hready houtput
  | allreduce count dtype op =>
    cases algorithm with
    | native => cases hattempt
    | allreduceAsReduceBcast =>
      obtain rfl := Option.some.inj hattempt
      exact Decomposition.pursues_allreduceAsReduceBcast hanswers hready
    | allreduceAsReduceScatterBlockAllgather =>
      obtain rfl := Option.some.inj hattempt
      exact Decomposition.pursues_allreduceAsReduceScatterBlockAllgather hanswers hready hinput
        houtput
    | allreduceAsReduceScatterAllgatherv =>
      obtain rfl := Option.some.inj hattempt
      exact Decomposition.pursues_allreduceAsReduceScatterAllgatherv hanswers hready hrank chunk
        houtput
  | alltoall count dtype =>
    cases algorithm with
    | native => cases hattempt
    | alltoallAsAlltoallv =>
      obtain rfl := Option.some.inj hattempt
      exact Decomposition.pursues_alltoallAsAlltoallv hanswers hready hsize
  | bcast count dtype root =>
    cases algorithm with
    | native => cases hattempt
    | bcastAsAllgatherv =>
      obtain rfl := Option.some.inj hattempt
      exact Decomposition.pursues_bcastAsAllgatherv hanswers hready
    | bcastAsScatterAllgather =>
      obtain rfl := Option.some.inj hattempt
      exact Decomposition.pursues_bcastAsScatterAllgather hanswers hready houtput
  | gather count dtype root =>
    cases algorithm with
    | native => cases hattempt
    | gatherAsAllgather =>
      obtain rfl := Option.some.inj hattempt
      exact Decomposition.pursues_gatherAsAllgather hanswers hready
    | gatherAsGatherv =>
      obtain rfl := Option.some.inj hattempt
      exact Decomposition.pursues_gatherAsGatherv hanswers hready hsize
    | gatherAsReduce =>
      obtain rfl := Option.some.inj hattempt
      exact Decomposition.pursues_gatherAsReduce hanswers hready hinput
  | reduce count dtype op root =>
    cases algorithm with
    | native => cases hattempt
    | reduceAsAllreduce =>
      obtain rfl := Option.some.inj hattempt
      exact Decomposition.pursues_reduceAsAllreduce hanswers hready
    | reduceAsReduceScatterBlockGather =>
      obtain rfl := Option.some.inj hattempt
      refine Decomposition.pursues_reduceAsReduceScatterBlockGather hanswers hready hinput
        fun hroot => ?_
      rwa [outputBytes, if_pos hroot] at houtput
    | reduceAsReduceScatterGatherv =>
      obtain rfl := Option.some.inj hattempt
      exact Decomposition.pursues_reduceAsReduceScatterGatherv hanswers hready chunk
  | reduceScatterBlock count dtype op =>
    cases algorithm with
    | native => cases hattempt
    | reduceScatterBlockAsReduceScatter =>
      obtain rfl := Option.some.inj hattempt
      exact Decomposition.pursues_reduceScatterBlockAsReduceScatter hanswers hready
  | scan count dtype op =>
    cases algorithm with
    | native => cases hattempt
    | scanAsExscanReduceLocal =>
      obtain rfl := Option.some.inj hattempt
      exact Decomposition.pursues_scanAsExscanReduceLocal hanswers hready hlocal hinput houtput
  | scatter count dtype root =>
    cases algorithm with
    | native => cases hattempt
    | scatterAsBcast =>
      obtain rfl := Option.some.inj hattempt
      refine Decomposition.pursues_scatterAsBcast hanswers hready (fun hroot => ?_) houtput
      rwa [inputBytes, if_pos hroot] at hinput
    | scatterAsScatterv =>
      obtain rfl := Option.some.inj hattempt
      exact Decomposition.pursues_scatterAsScatterv hanswers hready hsize

end Pursues

/-! ### The plans of two ranks -/

end CollectiveTuner.Request
