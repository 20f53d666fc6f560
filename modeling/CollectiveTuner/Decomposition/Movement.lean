import CollectiveTuner.Decomposition.Attempt

/-!
# Decompositions that move data

Allgather, alltoall, bcast, gather and scatter, each built from other operations. Every one of
them leaves in the caller's buffer what the native operation would.
-/

namespace CollectiveTuner.Decomposition

open Attempt

/-- Lays equal blocks of `count` elements out in the integer pool. -/
def uniformLayout (me : Member) (count : Nat) : Attempt (List Nat × List Nat) := do
  let (countsRegion, displsRegion) ← grabLayout me
  let (counts, displs) ← Layout.uniform me.size count
  storeIntegers countsRegion counts
  storeIntegers displsRegion displs
  pure (counts, displs)

/-- Allgather by an allgatherv of equal blocks. -/
def allgatherAsAllgatherv (me : Member) (input : Bytes) (count : Nat) (dtype : Datatype) :
    Attempt Unit :=
  withLease do
    let (counts, displs) ← uniformLayout me count
    issue (.allgatherv count counts displs dtype) input (← wholeOutput)

/-- A scratch region for one block per rank that holds zeros outside this rank's block. -/
def ownBlockAmongZeros (me : Member) (input : Bytes) (block : Nat) :
    Attempt Scratch.Region := do
  let total := me.size * block
  let own ← input.span 0 block
  let region ← grabMessages .first total
  writeScratch region (Bytes.overwrite (List.replicate total 0) (me.rank * block) own)
  pure region

/-- Allgather by a bitwise or of vectors that are zero outside each rank's block. -/
def allgatherAsAllreduce (me : Member) (input : Bytes) (count : Nat) (dtype : Datatype) :
    Attempt Unit :=
  withLease do
    let block := count * dtype.size
    let region ← ownBlockAmongZeros me input block
    issue (.allreduce (me.size * block) .uint8 .bitOr) (← readScratch region) (← wholeOutput)

/-- Allgather by an alltoall of identical blocks. -/
def allgatherAsAlltoall (me : Member) (input : Bytes) (count : Nat) (dtype : Datatype) :
    Attempt Unit :=
  withLease do
    let block := count * dtype.size
    let own ← input.span 0 block
    let region ← grabMessages .first (me.size * block)
    writeScratch region (List.replicate me.size own).flatten
    issue (.alltoall count dtype) (← readScratch region) (← wholeOutput)

/-- Allgather by a gather at rank 0 and a bcast from there. -/
def allgatherAsGatherBcast (me : Member) (input : Bytes) (count : Nat) (dtype : Datatype) :
    Attempt Unit := do
  let total := me.size * count * dtype.size
  checkOutput 0 total
  issue (.gather count dtype 0) input (.output 0 total)
  issue (.bcast (me.size * count) dtype 0) [] (.output 0 total)

/-- Alltoall by an alltoallv of equal blocks. -/
def alltoallAsAlltoallv (me : Member) (input : Bytes) (count : Nat) (dtype : Datatype) :
    Attempt Unit :=
  withLease do
    let (counts, displs) ← uniformLayout me count
    issue (.alltoallv counts displs counts displs dtype) input (← wholeOutput)

/-- Bcast by an allgatherv in place to which only the root contributes. -/
def bcastAsAllgatherv (me : Member) (count : Nat) (dtype : Datatype) (root : Nat) :
    Attempt Unit :=
  withLease do
    let (countsRegion, displsRegion) ← grabLayout me
    let block ← toCount count
    let counts := (List.range me.size).map fun i => if i = root then block else 0
    let displs := (List.range me.size).map fun i => if i ≤ root then 0 else block
    storeIntegers countsRegion counts
    storeIntegers displsRegion displs
    issue (.allgathervInPlace counts displs dtype) [] (← wholeOutput)

/-- The elements of a vector in a scratch region, padded to a whole number of blocks. -/
def writePadded (region : Scratch.Region) (elements : Bytes) (count padded extent : Nat) :
    Attempt Unit := do
  let stale ← readScratch region
  writeScratch region
    (Layout.padWithFirst (stale.overwrite 0 elements) count padded extent)

/-- Bcast by a scatter of padded blocks and an allgather of them. -/
def bcastAsScatterAllgather (me : Member) (count : Nat) (dtype : Datatype) (root : Nat) :
    Attempt Unit := do
  let padded := Layout.paddedCount count me.size
  let chunk := padded / me.size
  let length := count * dtype.size
  checkOutput 0 length
  withLease do
    let full ← grabMessages .first (padded * dtype.size)
    let part ← grabMessages .second (chunk * dtype.size)
    if me.rank = root then
      writePadded full ((← get).output.take length) count padded dtype.size
    issue (.scatter chunk dtype root) (← readScratch full) (.scratch part)
    issue (.allgather chunk dtype) (← readScratch part) (.scratch full)
    if me.rank ≠ root then
      writeOutput 0 ((← readScratch full).take length)

/-- Gather by an allgather, into scratch space everywhere but at the root. -/
def gatherAsAllgather (me : Member) (input : Bytes) (count : Nat) (dtype : Datatype)
    (root : Nat) : Attempt Unit :=
  withLease do
    let region ← grabMessages .first (me.size * (count * dtype.size))
    let place ← if me.rank = root then wholeOutput else pure (.scratch region)
    issue (.allgather count dtype) input place

/-- Gather by a gatherv of equal blocks. -/
def gatherAsGatherv (me : Member) (input : Bytes) (count : Nat) (dtype : Datatype)
    (root : Nat) : Attempt Unit :=
  withLease do
    let (counts, displs) ← uniformLayout me count
    issue (.gatherv count counts displs dtype root) input (← wholeOutput)

/-- Gather by a bitwise or, at the root, of vectors that are zero outside each rank's block. -/
def gatherAsReduce (me : Member) (input : Bytes) (count : Nat) (dtype : Datatype)
    (root : Nat) : Attempt Unit :=
  withLease do
    let block := count * dtype.size
    let region ← ownBlockAmongZeros me input block
    issue (.reduce (me.size * block) .uint8 .bitOr root) (← readScratch region) (← wholeOutput)

/-- Scatter by a bcast of all blocks, of which each rank keeps its own. -/
def scatterAsBcast (me : Member) (input : Bytes) (count : Nat) (dtype : Datatype)
    (root : Nat) : Attempt Unit := do
  let block := count * dtype.size
  let total := me.size * block
  checkOutput 0 block
  withLease do
    let region ← grabMessages .first total
    if me.rank = root then
      writeScratch region (← input.span 0 total)
    issue (.bcast (me.size * count) dtype root) [] (.scratch region)
    writeOutput 0 (((← readScratch region).drop (me.rank * block)).take block)

/-- Scatter by a scatterv of equal blocks. -/
def scatterAsScatterv (me : Member) (input : Bytes) (count : Nat) (dtype : Datatype)
    (root : Nat) : Attempt Unit :=
  withLease do
    let (counts, displs) ← uniformLayout me count
    issue (.scatterv counts displs count dtype root) input (← wholeOutput)

end CollectiveTuner.Decomposition
