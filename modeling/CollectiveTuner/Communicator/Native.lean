import CollectiveTuner.Buffer
import CollectiveTuner.Communicator.Call
import CollectiveTuner.Layout
import CollectiveTuner.Transport.Network
import CollectiveTuner.Reduction

/-!
# Native operations on channels

Each primitive is carried out by sends and receives between the ranks of a group. A rank sends
to its peers in ascending order, then serves its sources in ascending order. It checks where a
message goes before it takes the message, so a rank that fails leaves the rest of its messages
in the queues.
-/

namespace CollectiveTuner.Native

open Transport

/-- A part of a native operation on one rank: it uses the channels, it may write the caller's
buffer, and it may fail. What was written before a failure stays written. -/
abbrev Exchange (n : Nat) := ExceptT Error (StateT Bytes (Program (ChannelOp n) ChannelOp.Answer))

variable {n : Nat}

/-- Uses a channel. -/
def onChannel (op : ChannelOp n) : Exchange n op.Answer :=
  ExceptT.lift (StateT.lift (Program.request op))

/-- The rank with this number. -/
def validRank (rank : Nat) : Except Error (Fin n) :=
  if h : rank < n then pure ⟨rank, h⟩ else throw (.invalidRank rank n)

/-- All ranks but `me`, ascending. -/
def peers (me : Fin n) : List (Fin n) :=
  (List.finRange n).filter fun rank => rank ≠ me

/-- Sends a message. It fails when the destination is gone. -/
def deliver (dest : Fin n) (message : Bytes) : Exchange n Unit := do
  let delivered ← onChannel (.send dest message)
  if delivered = false then
    throw (.transport s!"send to rank {dest.val}" (some "channel closed"))

/-- Takes the next message of a source. It fails when the source is gone and left none. -/
def accept (source : Fin n) (operation : String) : Exchange n Bytes := do
  match ← onChannel (.receive source) with
  | some message => pure message
  | none => throw (.collectiveFailed operation source "peer endpoint dropped")

/-- Fails when a block leaves the caller's buffer. -/
def checkOutput (start length : Nat) : Exchange n Unit := do
  Bytes.checkBlock (← get).length start length

/-- Writes a block that has to have exactly `length` bytes. -/
def store (start length : Nat) (block : Bytes) : Exchange n Unit := do
  if block.length ≠ length then throw (.bufferSizeMismatch length block.length)
  modify fun buffer => buffer.overwrite start block

/-- Takes the next message of a source into a block of the caller's buffer. -/
def acceptInto (source : Fin n) (operation : String) (start length : Nat) : Exchange n Unit := do
  checkOutput start length
  store start length (← accept source operation)

/-- Writes a block of this rank's own data into the caller's buffer. -/
def keep (start length : Nat) (block : Bytes) : Exchange n Unit := do
  checkOutput start length
  store start length block

/-- Fails unless there is a count and a displacement for every rank. -/
def checkLayout (n : Nat) (counts displs : List Nat) : Except Error Unit :=
  if counts.length < n ∨ displs.length < n then
    throw (.bufferSizeMismatch n (min counts.length displs.length))
  else pure ()

/-- The entry of a per-rank list. -/
def entry (entries : List Nat) (rank : Fin n) : Nat :=
  entries[rank.val]?.getD 0

/-- Sends a message to one rank. -/
def send (input : Bytes) (dest : Nat) : Exchange n Unit := do
  deliver (← validRank dest) input

/-- Receives a message that fills the whole buffer. -/
def receive (source : Nat) : Exchange n Unit := do
  acceptInto (← validRank source) "recv" 0 (← get).length

/-- Copies the root's elements to every rank. -/
def bcast (me : Fin n) (count : Nat) (dtype : Datatype) (root : Nat) : Exchange n Unit := do
  let root : Fin n ← validRank root
  let length := count * dtype.size
  if me = root then
    let block ← (← get).span 0 length
    (peers me).forM fun dest => deliver dest block
  else acceptInto root "bcast" 0 length

/-- Gives each rank its block of the root's elements. -/
def scatter (me : Fin n) (input : Bytes) (count : Nat) (dtype : Datatype) (root : Nat) :
    Exchange n Unit := do
  let root : Fin n ← validRank root
  let length := count * dtype.size
  if me = root then
    (List.finRange n).forM fun dest => do
      let block ← input.span (dest * length) length
      if dest = root then keep 0 length block else deliver dest block
  else acceptInto root "scatter" 0 length

/-- Gives each rank its block of the root's elements, where the root says which block. -/
def scatterv (me : Fin n) (input : Bytes) (counts displs : List Nat) (receiveCount : Nat)
    (dtype : Datatype) (root : Nat) : Exchange n Unit := do
  let root : Fin n ← validRank root
  let length := receiveCount * dtype.size
  if me = root then
    checkLayout n counts displs
    (List.finRange n).forM fun dest => do
      let block ← input.span (entry displs dest * dtype.size) (entry counts dest * dtype.size)
      if dest = root then keep 0 length block else deliver dest block
  else acceptInto root "scatterv" 0 length

/-- Collects a block of every rank at the root. -/
def gather (me : Fin n) (input : Bytes) (count : Nat) (dtype : Datatype) (root : Nat) :
    Exchange n Unit := do
  let root : Fin n ← validRank root
  let length := count * dtype.size
  let own ← input.span 0 length
  if me = root then
    (List.finRange n).forM fun source =>
      if source = me then keep (source * length) length own
      else acceptInto source "gather" (source * length) length
  else deliver root own

/-- Places the block of `source` in the caller's buffer as the layout says. -/
def placeBlock (me source : Fin n) (own : Bytes) (counts displs : List Nat) (dtype : Datatype)
    (operation : String) : Exchange n Unit :=
  let start := entry displs source * dtype.size
  let length := entry counts source * dtype.size
  if source = me then keep start length own else acceptInto source operation start length

/-- Collects a block of every rank at the root, where the root says where it goes. -/
def gatherv (me : Fin n) (input : Bytes) (sendCount : Nat) (counts displs : List Nat)
    (dtype : Datatype) (root : Nat) : Exchange n Unit := do
  let root : Fin n ← validRank root
  let own ← input.span 0 (sendCount * dtype.size)
  if me = root then
    checkLayout n counts displs
    (List.finRange n).forM fun source =>
      placeBlock me source own counts displs dtype "gatherv"
  else deliver root own

/-- Collects a block of every rank at every rank. -/
def allgather (me : Fin n) (input : Bytes) (count : Nat) (dtype : Datatype) :
    Exchange n Unit := do
  let length := count * dtype.size
  let own ← input.span 0 length
  (peers me).forM fun dest => deliver dest own
  (List.finRange n).forM fun source =>
    if source = me then keep (source * length) length own
    else acceptInto source "allgather" (source * length) length

/-- Collects a block of every rank at every rank, each of which says where it goes. -/
def allgatherv (me : Fin n) (input : Bytes) (sendCount : Nat) (counts displs : List Nat)
    (dtype : Datatype) : Exchange n Unit := do
  checkLayout n counts displs
  let own ← input.span 0 (sendCount * dtype.size)
  (peers me).forM fun dest => deliver dest own
  (List.finRange n).forM fun source =>
    placeBlock me source own counts displs dtype "allgatherv"

/-- Like `allgatherv`, with each rank's own block already in place. -/
def allgathervInPlace (me : Fin n) (counts displs : List Nat) (dtype : Datatype) :
    Exchange n Unit := do
  checkLayout n counts displs
  let own ← (← get).span (entry displs me * dtype.size) (entry counts me * dtype.size)
  (peers me).forM fun dest => deliver dest own
  (peers me).forM fun source =>
    acceptInto source "allgatherv" (entry displs source * dtype.size)
      (entry counts source * dtype.size)

/-- Moves block `d` of every rank to rank `d`. -/
def alltoall (me : Fin n) (input : Bytes) (count : Nat) (dtype : Datatype) :
    Exchange n Unit := do
  let length := count * dtype.size
  (peers me).forM fun dest => do
    deliver dest (← input.span (dest * length) length)
  (List.finRange n).forM fun source => do
    if source = me then
      checkOutput (source * length) length
      keep (source * length) length (← input.span (source * length) length)
    else acceptInto source "alltoall" (source * length) length

/-- Like `alltoall`, with a layout of blocks on both sides. -/
def alltoallv (me : Fin n) (input : Bytes)
    (sendCounts sendDispls receiveCounts receiveDispls : List Nat) (dtype : Datatype) :
    Exchange n Unit := do
  checkLayout n sendCounts sendDispls
  checkLayout n receiveCounts receiveDispls
  let block (dest : Fin n) :=
    input.span (entry sendDispls dest * dtype.size) (entry sendCounts dest * dtype.size)
  (peers me).forM fun dest => do
    deliver dest (← block dest)
  (List.finRange n).forM fun source => do
    let start := entry receiveDispls source * dtype.size
    let length := entry receiveCounts source * dtype.size
    if source = me then
      checkOutput start length
      keep start length (← block me)
    else acceptInto source "alltoallv" start length

/-- Combines a contribution of each source, from left to right. This rank contributes `own`,
and every other contribution has to be as long. Without sources there is no result. -/
def fold (arithmetic : FloatArithmetic) (me : Fin n) (own : Bytes) (count : Nat)
    (dtype : Datatype) (op : ReduceOp) (operation : String) :
    List (Fin n) → Option Bytes → Exchange n (Option Bytes)
  | [], folded => pure folded
  | source :: rest, folded => do
    let contribution ←
      if source = me then pure own
      else do
        let message ← accept source operation
        if message.length ≠ own.length then
          throw (.bufferSizeMismatch own.length message.length)
        pure message
    let folded ←
      match folded with
      | none => pure contribution
      | some folded => Reduction.accumulate arithmetic dtype op count folded contribution
    fold arithmetic me own count dtype op operation rest (some folded)

/-- Writes the result of a fold at the start of the caller's buffer. -/
def keepFold (folded : Option Bytes) : Exchange n Unit :=
  match folded with
  | none => pure ()
  | some block => keep 0 block.length block

/-- Combines the elements of all ranks at the root. -/
def reduce (arithmetic : FloatArithmetic) (me : Fin n) (input : Bytes) (count : Nat)
    (dtype : Datatype) (op : ReduceOp) (root : Nat) : Exchange n Unit := do
  let root : Fin n ← validRank root
  Reduction.checkSupported dtype op
  let own ← input.span 0 (count * dtype.size)
  if me = root then
    keepFold (← fold arithmetic me own count dtype op "reduce" (List.finRange n) none)
  else deliver root own

/-- Combines the elements of all ranks at every rank. -/
def allreduce (arithmetic : FloatArithmetic) (me : Fin n) (input : Bytes) (count : Nat)
    (dtype : Datatype) (op : ReduceOp) : Exchange n Unit := do
  reduce arithmetic me input count dtype op 0
  bcast me count dtype 0

/-- Combines the elements of all ranks and gives each rank its block of the result. -/
def reduceScatter (arithmetic : FloatArithmetic) (me : Fin n) (input : Bytes)
    (receiveCounts : List Nat) (dtype : Datatype) (op : ReduceOp) : Exchange n Unit := do
  Reduction.checkSupported dtype op
  if receiveCounts.length < n then throw (.bufferSizeMismatch n receiveCounts.length)
  let block (rank : Fin n) :=
    input.span (Layout.displacement receiveCounts rank * dtype.size)
      (entry receiveCounts rank * dtype.size)
  (peers me).forM fun dest => do
    deliver dest (← block dest)
  let own ← block me
  keepFold (← fold arithmetic me own (entry receiveCounts me) dtype op "reduce_scatter"
    (List.finRange n) none)

/-- `reduceScatter` with blocks of equal length. -/
def reduceScatterBlock (arithmetic : FloatArithmetic) (me : Fin n) (input : Bytes)
    (receiveCount : Nat) (dtype : Datatype) (op : ReduceOp) : Exchange n Unit := do
  let count ← toCount receiveCount
  reduceScatter arithmetic me input (List.replicate n count) dtype op

/-- The ranks above `me`, ascending. -/
def ranksAbove (me : Fin n) : List (Fin n) :=
  (List.finRange n).filter fun rank => me < rank

/-- Combines the elements of the ranks up to and including this one. -/
def scan (arithmetic : FloatArithmetic) (me : Fin n) (input : Bytes) (count : Nat)
    (dtype : Datatype) (op : ReduceOp) : Exchange n Unit := do
  Reduction.checkSupported dtype op
  let own ← input.span 0 (count * dtype.size)
  (ranksAbove me).forM fun dest => deliver dest own
  let sources := (List.finRange n).filter fun rank => rank ≤ me
  keepFold (← fold arithmetic me own count dtype op "scan" sources none)

/-- Combines the elements of the ranks below this one. Rank 0 gets none. -/
def exscan (arithmetic : FloatArithmetic) (me : Fin n) (input : Bytes) (count : Nat)
    (dtype : Datatype) (op : ReduceOp) : Exchange n Unit := do
  Reduction.checkSupported dtype op
  let own ← input.span 0 (count * dtype.size)
  (ranksAbove me).forM fun dest => deliver dest own
  let sources := (List.finRange n).filter fun rank => rank < me
  keepFold (← fold arithmetic me own count dtype op "exscan" sources none)

/-- What rank `me` does for one primitive. -/
def exchange (arithmetic : FloatArithmetic) (me : Fin n) (input : Bytes) :
    Primitive → Exchange n Unit
  | .send dest => send input dest
  | .receive source => receive source
  | .bcast count dtype root => bcast me count dtype root
  | .scatter count dtype root => scatter me input count dtype root
  | .scatterv counts displs receiveCount dtype root =>
    scatterv me input counts displs receiveCount dtype root
  | .gather count dtype root => gather me input count dtype root
  | .gatherv sendCount counts displs dtype root =>
    gatherv me input sendCount counts displs dtype root
  | .allgather count dtype => allgather me input count dtype
  | .allgatherv sendCount counts displs dtype => allgatherv me input sendCount counts displs dtype
  | .allgathervInPlace counts displs dtype => allgathervInPlace me counts displs dtype
  | .alltoall count dtype => alltoall me input count dtype
  | .alltoallv sendCounts sendDispls receiveCounts receiveDispls dtype =>
    alltoallv me input sendCounts sendDispls receiveCounts receiveDispls dtype
  | .reduce count dtype op root => reduce arithmetic me input count dtype op root
  | .allreduce count dtype op => allreduce arithmetic me input count dtype op
  | .reduceScatter receiveCounts dtype op =>
    reduceScatter arithmetic me input receiveCounts dtype op
  | .reduceScatterBlock receiveCount dtype op =>
    reduceScatterBlock arithmetic me input receiveCount dtype op
  | .scan count dtype op => scan arithmetic me input count dtype op
  | .exscan count dtype op => exscan arithmetic me input count dtype op

/-- Carries a call out on the channels of rank `me`. -/
def answer (arithmetic : FloatArithmetic) (me : Fin n) (call : Call) : RankProgram n Reply := do
  let (status, output) ← (exchange arithmetic me call.input call.primitive).run.run call.output
  pure { status, output }

/-- Runs a script on the channels of rank `me`. -/
def run {α : Type} (arithmetic : FloatArithmetic) (me : Fin n) (script : Script α) :
    RankProgram n α :=
  script.interpret (answer arithmetic me)

end CollectiveTuner.Native
