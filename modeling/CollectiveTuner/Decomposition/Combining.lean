import CollectiveTuner.Decomposition.Movement
import CollectiveTuner.Reduction

/-!
# Decompositions that combine elements

Allreduce, reduce, reduce-scatter-block and scan, each built from other operations. The parts
combine the ranks' elements in ascending rank order, as the native operations do, so they need
no law of the combination.
-/

namespace CollectiveTuner.Decomposition

open Attempt

/-- Allreduce by a reduce at rank 0 and a bcast from there. -/
def allreduceAsReduceBcast (input : Bytes) (count : Nat) (dtype : Datatype) (op : ReduceOp) :
    Attempt Unit := do
  issue (.reduce count dtype op 0) input (← wholeOutput)
  issue (.bcast count dtype 0) [] (← wholeOutput)

/-- Allreduce of a padded vector by blocks: each rank combines one block, and an allgather
puts the blocks together. -/
def allreduceAsReduceScatterBlockAllgather (me : Member) (input : Bytes) (count : Nat)
    (dtype : Datatype) (op : ReduceOp) : Attempt Unit := do
  let padded := Layout.paddedCount count me.size
  let chunk := padded / me.size
  let length := count * dtype.size
  let elements ← input.span 0 length
  checkOutput 0 length
  withLease do
    let full ← grabMessages .first (padded * dtype.size)
    let part ← grabMessages .second (chunk * dtype.size)
    writePadded full elements count padded dtype.size
    issue (.reduceScatterBlock chunk dtype op) (← readScratch full) (.scratch part)
    issue (.allgather chunk dtype) (← readScratch part) (.scratch full)
    writeOutput 0 ((← readScratch full).take length)

/-- Allreduce by round-robin shares: each rank combines its share in place, and an allgatherv
in place spreads the shares. -/
def allreduceAsReduceScatterAllgatherv (me : Member) (input : Bytes) (count : Nat)
    (dtype : Datatype) (op : ReduceOp) (chunk : Nat) : Attempt Unit :=
  withLease do
    let (countsRegion, displsRegion) ← grabLayout me
    let counts ← Layout.roundRobinCounts me.size count chunk
    let displs := Layout.displacements counts
    storeIntegers countsRegion counts
    storeIntegers displsRegion displs
    let start := (displs[me.rank]?.getD 0) * dtype.size
    let length := (counts[me.rank]?.getD 0) * dtype.size
    checkOutput start length
    issue (.reduceScatter counts dtype op) input (.output start length)
    issue (.allgathervInPlace counts displs dtype) [] (← wholeOutput)

/-- Reduce by an allreduce, into scratch space everywhere but at the root. -/
def reduceAsAllreduce (me : Member) (input : Bytes) (count : Nat) (dtype : Datatype)
    (op : ReduceOp) (root : Nat) : Attempt Unit :=
  withLease do
    let region ← grabMessages .first (count * dtype.size)
    let place ← if me.rank = root then wholeOutput else pure (.scratch region)
    issue (.allreduce count dtype op) input place

/-- Reduce of a padded vector by blocks: each rank combines one block, and a gather puts the
blocks together at the root. -/
def reduceAsReduceScatterBlockGather (me : Member) (input : Bytes) (count : Nat)
    (dtype : Datatype) (op : ReduceOp) (root : Nat) : Attempt Unit := do
  let padded := Layout.paddedCount count me.size
  let chunk := padded / me.size
  let length := count * dtype.size
  let elements ← input.span 0 length
  if me.rank = root then checkOutput 0 length
  withLease do
    let full ← grabMessages .first (padded * dtype.size)
    let part ← grabMessages .second (chunk * dtype.size)
    writePadded full elements count padded dtype.size
    issue (.reduceScatterBlock chunk dtype op) (← readScratch full) (.scratch part)
    issue (.gather chunk dtype root) (← readScratch part) (.scratch full)
    if me.rank = root then
      writeOutput 0 ((← readScratch full).take length)

/-- Reduce by round-robin shares: each rank combines its share in scratch space, and a gatherv
puts the shares together at the root. -/
def reduceAsReduceScatterGatherv (me : Member) (input : Bytes) (count : Nat) (dtype : Datatype)
    (op : ReduceOp) (root chunk : Nat) : Attempt Unit :=
  withLease do
    let (countsRegion, displsRegion) ← grabLayout me
    let counts ← Layout.roundRobinCounts me.size count chunk
    storeIntegers countsRegion counts
    let region ← grabMessages .first (counts.foldl max 0 * dtype.size)
    let shareCount := counts[me.rank]?.getD 0
    let share := region.shorten (shareCount * dtype.size)
    issue (.reduceScatter counts dtype op) input (.scratch share)
    let displs := Layout.displacements counts
    storeIntegers displsRegion displs
    issue (.gatherv shareCount counts displs dtype root) (← readScratch share) (← wholeOutput)

/-- Reduce-scatter of equal blocks by a reduce at rank 0 and a scatter from there. -/
def reduceScatterBlockAsReduceScatter (me : Member) (input : Bytes) (count : Nat)
    (dtype : Datatype) (op : ReduceOp) : Attempt Unit :=
  withLease do
    let total := me.size * count
    let region ← grabMessages .first (total * dtype.size)
    issue (.reduce total dtype op 0) input (.scratch region)
    issue (.scatter count dtype 0) (← readScratch region) (← wholeOutput)

/-- Scan by an exclusive scan, after which each rank adds its own elements. -/
def scanAsExscanReduceLocal (arithmetic : FloatArithmetic) (me : Member) (input : Bytes)
    (count : Nat) (dtype : Datatype) (op : ReduceOp) : Attempt Unit := do
  let length := count * dtype.size
  let own ← input.span 0 length
  checkOutput 0 length
  issue (.exscan count dtype op) input (← wholeOutput)
  if me.rank = 0 then writeOutput 0 own
  else
    let folded ← Reduction.accumulate arithmetic dtype op count (← get).output input
    writeOutput 0 folded

end CollectiveTuner.Decomposition
