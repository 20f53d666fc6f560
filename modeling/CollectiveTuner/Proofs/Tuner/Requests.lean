import CollectiveTuner.Proofs.Decomposition.Combining
import CollectiveTuner.Proofs.Tuner.Plans

/-!
# What a request leaves

`contents` says what every rank gets from a request. The native operation and every
decomposition put it at the start of the outputs, and a decomposition that fails spoils nothing
that the native operation would not write over.
-/

namespace CollectiveTuner.Request

open Attempt Native Scratch Reduction
open Bytes (concat)

variable {n : Nat} {arithmetic : FloatArithmetic} {request : Request}
  {inputs outputs : Fin n → Bytes}

/-- The buffer of the rank with this number. A rank outside the group has an empty one. -/
def bufferOf (buffers : Fin n → Bytes) (rank : Nat) : Bytes :=
  if hrank : rank < n then buffers ⟨rank, hrank⟩ else []

/-- A rank of the group has its own buffer. -/
@[simp] theorem bufferOf_val (buffers : Fin n → Bytes) (rank : Fin n) :
    bufferOf buffers rank = buffers rank :=
  dif_pos rank.isLt

/-- What a request puts at the start of the output of a rank. -/
def contents (arithmetic : FloatArithmetic) (request : Request) (inputs outputs : Fin n → Bytes)
    (me : Fin n) : Bytes :=
  match request with
  | allgather count dtype => concat fun source => (inputs source).slice 0 (count * dtype.size)
  | allreduce count dtype op => combined arithmetic dtype op count inputs (List.finRange n)
  | alltoall count dtype =>
    concat fun source => (inputs source).slice (me * (count * dtype.size)) (count * dtype.size)
  | bcast count dtype root => (bufferOf outputs root).slice 0 (count * dtype.size)
  | gather count dtype root =>
    if me.val = root then concat fun source => (inputs source).slice 0 (count * dtype.size) else []
  | reduce count dtype op root =>
    if me.val = root then combined arithmetic dtype op count inputs (List.finRange n) else []
  | reduceScatterBlock count dtype op =>
    (combined arithmetic dtype op (n * count) inputs (List.finRange n)).slice
      (me * (count * dtype.size)) (count * dtype.size)
  | scan count dtype op =>
    combined arithmetic dtype op count inputs ((List.finRange n).filter (· ≤ me))
  | scatter count dtype root =>
    (bufferOf inputs root).slice (me * (count * dtype.size)) (count * dtype.size)

section Roots

variable (count : Nat) (dtype : Datatype) (op : ReduceOp) (root : Fin n)

/-- A broadcast leaves the elements of the root everywhere. -/
theorem contents_bcast : (bcast count dtype root).contents arithmetic inputs outputs =
    fun _ => (outputs root).slice 0 (count * dtype.size) := by
  funext me
  rw [contents, bufferOf_val]

/-- A gather leaves all blocks at the root. -/
theorem contents_gather : (gather count dtype root).contents arithmetic inputs outputs =
    fun me => if me = root then concat fun source => (inputs source).slice 0 (count * dtype.size)
      else [] := by
  funext me
  simp only [contents, Fin.val_inj]

/-- A reduce leaves the combination of all vectors at the root. -/
theorem contents_reduce : (reduce count dtype op root).contents arithmetic inputs outputs =
    fun me => if me = root then combined arithmetic dtype op count inputs (List.finRange n)
      else [] := by
  funext me
  simp only [contents, Fin.val_inj]

/-- A scatter leaves each rank its block of the root's elements. -/
theorem contents_scatter : (scatter count dtype root).contents arithmetic inputs outputs =
    fun me : Fin n => (inputs root).slice (me * (count * dtype.size)) (count * dtype.size) := by
  funext me
  rw [contents, bufferOf_val]

end Roots

/-- The native operation does not reject the request. Only reductions are ever rejected. -/
def Accepted : Request → Prop
  | allreduce _ dtype op | reduce _ dtype op _ | scan _ dtype op => Supported dtype op
  | reduceScatterBlock count dtype op => Supported dtype op ∧ count < UInt32.size
  | _ => True

/-- The request combines elements. Every other request only moves them. -/
def Combines : Request → Prop
  | allreduce .. | reduce .. | reduceScatterBlock .. | scan .. => True
  | _ => False

/-- Requests that only move elements are never rejected. -/
theorem accepted_of_not_combines (hmoves : ¬ request.Combines) : request.Accepted := by
  cases request <;> first | trivial | exact absurd trivial hmoves

/-- The root is in the group and every buffer is as long as the request needs. -/
structure Supplied (request : Request) (inputs outputs : Fin n → Bytes) : Prop where
  root : ∀ root ∈ request.root?, root < n
  inputs : ∀ me : Fin n, request.inputBytes ⟨me, n⟩ ≤ (inputs me).length
  outputs : ∀ me : Fin n, request.outputBytes ⟨me, n⟩ ≤ (outputs me).length

/-- The root as a rank of the group. -/
theorem Supplied.exists_root (hsupplied : request.Supplied inputs outputs) {root : Nat}
    (hroot : request.root? = some root) : ∃ rank : Fin n, rank.val = root :=
  ⟨⟨root, hsupplied.root root hroot⟩, rfl⟩

/-- What a root needs, which no other rank does. -/
theorem le_of_root {root : Fin n} {needed : Nat} {buffers : Fin n → Bytes}
    (hbuffers : ∀ me : Fin n, (if me.val = root.val then needed else 0) ≤ (buffers me).length) :
    needed ≤ (buffers root).length := by
  simpa using hbuffers root

/-- **The native operation leaves the contents of a request, or rejects it.** -/
theorem serves_primitive (hn : 0 < n) (hsupplied : request.Supplied inputs outputs) :
    Serves (fun me => exchange arithmetic me (inputs me) request.primitive) request.Accepted outputs
      fun me => (outputs me).overwrite 0 (request.contents arithmetic inputs outputs me) := by
  cases request with
  | allgather count dtype =>
    exact (together_allgather hsupplied.inputs hsupplied.outputs).serves
  | allreduce count dtype op => exact serves_allreduce hn hsupplied.inputs hsupplied.outputs
  | alltoall count dtype => exact (together_alltoall hsupplied.inputs hsupplied.outputs).serves
  | bcast count dtype root =>
    obtain ⟨root, rfl⟩ := hsupplied.exists_root rfl
    rw [contents_bcast]
    exact (together_bcast root hsupplied.outputs).serves
  | gather count dtype root =>
    obtain ⟨root, rfl⟩ := hsupplied.exists_root rfl
    simp only [contents_gather, Bytes.overwrite_ite]
    exact (together_gather root hsupplied.inputs (le_of_root hsupplied.outputs)).serves
  | reduce count dtype op root =>
    obtain ⟨root, rfl⟩ := hsupplied.exists_root rfl
    simp only [contents_reduce, Bytes.overwrite_ite]
    exact serves_reduce root hsupplied.inputs (le_of_root hsupplied.outputs)
  | reduceScatterBlock count dtype op =>
    have hinputs (me : Fin n) : n * count * dtype.size ≤ (inputs me).length :=
      (Nat.mul_assoc _ _ _).trans_le (hsupplied.inputs me)
    simp only [contents, ← Nat.mul_assoc]
    exact serves_reduceScatterBlock hinputs hsupplied.outputs
  | scan count dtype op => exact serves_scan hsupplied.inputs hsupplied.outputs
  | scatter count dtype root =>
    obtain ⟨root, rfl⟩ := hsupplied.exists_root rfl
    rw [contents_scatter]
    exact (together_scatter root (le_of_root hsupplied.inputs) hsupplied.outputs).serves

/-- Outputs that are changed only where `touched` says so end up the same once the contents have
been written. -/
def Recovers (arithmetic : FloatArithmetic) (request : Request) (inputs outputs : Fin n → Bytes)
    (touched : Fin n → Nat) : Prop :=
  ∀ outputs' : Fin n → Bytes, (∀ me, Spared (touched me) (outputs me) (outputs' me)) →
    ∀ me, (outputs' me).overwrite 0 (request.contents arithmetic inputs outputs' me) =
      (outputs me).overwrite 0 (request.contents arithmetic inputs outputs me)

/-- Outputs that have not been changed at all. -/
theorem recovers_untouched : request.Recovers arithmetic inputs outputs fun _ => 0 := by
  intro outputs' hspared me
  have hsame : outputs' = outputs := by
    funext rank
    simpa using (hspared rank).2
  rw [hsame]

/-- Contents that do not depend on the outputs write over what has been changed. -/
theorem recovers_of_length_le {touched : Fin n → Nat}
    (hcontents : ∀ outputs' : Fin n → Bytes, request.contents arithmetic inputs outputs' =
      request.contents arithmetic inputs outputs)
    (htouched : ∀ me, touched me ≤ (request.contents arithmetic inputs outputs me).length) :
    request.Recovers arithmetic inputs outputs touched := by
  intro outputs' hspared me
  have hrest : ∀ stop, touched me ≤ stop → (outputs' me).drop stop = (outputs me).drop stop := by
    intro stop hstop
    rw [← Nat.add_sub_cancel' hstop, ← List.drop_drop, ← List.drop_drop, (hspared me).2]
  rw [hcontents, Bytes.overwrite_zero, Bytes.overwrite_zero, hrest _ (htouched me)]

/-- The group carries out all combinations of an algorithm: they are supported, and blocks that are
combined are counted in a header. -/
def Combinable (n : Nat) : (request : Request) → Algorithm request.collective → Prop
  | allreduce count dtype op, algorithm =>
    match algorithm with
    | .allreduceAsReduceScatterBlockAllgather =>
      Supported dtype op ∧ Layout.paddedCount count n / n < UInt32.size
    | _ => Supported dtype op
  | reduce count dtype op _, algorithm =>
    match algorithm with
    | .reduceAsReduceScatterBlockGather =>
      Supported dtype op ∧ Layout.paddedCount count n / n < UInt32.size
    | _ => Supported dtype op
  | reduceScatterBlock _ dtype op, _ | scan _ dtype op, _ => Supported dtype op
  | _, _ => True

/-- The decomposition of an algorithm succeeds unless one of its calls is refused. -/
def Possible (n messages integers chunk : Nat) (request : Request)
    (algorithm : Algorithm request.collective) : Prop :=
  request.HasRoom n messages integers chunk algorithm ∧ request.Combinable n algorithm

/-- The attempts of all ranks leave the contents of the request if it is possible, and when they
fail nothing is lost. -/
def Achieved (arithmetic : FloatArithmetic) (refusals : Refusals n)
    (messages integers position : Nat) (request : Request) (possible : Prop)
    (inputs : Fin n → Bytes) (attempts : Fin n → Attempt Unit) (before : Fin n → Workspace) :
    Prop :=
  ∃ touched : Fin n → Nat,
    Realizes arithmetic refusals (Arena.Ready messages integers) possible
      (fun me => (before me).output)
      (request.contents arithmetic inputs fun me => (before me).output) touched position attempts
      before ∧
    request.Recovers arithmetic inputs (fun me => (before me).output) touched

section Decompositions

variable {refusals : Refusals n} {messages integers position : Nat} {before : Fin n → Workspace}
  {count : Nat} {dtype : Datatype} {op : ReduceOp}

/-- A request is achieved by attempts that realize it. -/
theorem Achieved.of_realizes {possible possible' : Prop} {attempts : Fin n → Attempt Unit}
    {touched : Fin n → Nat} (hpossible : possible ↔ possible')
    (hrealizes : Realizes arithmetic refusals (Arena.Ready messages integers) possible
      (fun me => (before me).output)
      (request.contents arithmetic inputs fun me => (before me).output) touched position attempts
      before)
    (hrecovers : request.Recovers arithmetic inputs (fun me => (before me).output) touched) :
    request.Achieved arithmetic refusals messages integers position possible' inputs attempts
      before :=
  ⟨touched, propext hpossible ▸ hrealizes, hrecovers⟩

/-- A decomposition that fails only before it has written to the outputs. -/
theorem Achieved.of_untouched {possible possible' : Prop} {contents : Fin n → Bytes}
    {attempts : Fin n → Attempt Unit} (hpossible : possible ↔ possible')
    (hcontents : (request.contents arithmetic inputs fun me => (before me).output) = contents)
    (hrealizes : Realizes arithmetic refusals (Arena.Ready messages integers) possible
      (fun me => (before me).output) contents (fun _ => 0) position attempts before) :
    request.Achieved arithmetic refusals messages integers position possible' inputs attempts
      before :=
  .of_realizes hpossible (hcontents ▸ hrealizes) recovers_untouched

variable (hn : 0 < n) (hready : ∀ me, (before me).arena.Ready messages integers) (chunk : Nat)
  {attempts : Fin n → Attempt Unit}

include hn hready

/-- An allgather is achieved by each of its decompositions. -/
theorem achieved_allgather {algorithm : Algorithm .allgather}
    (hsupplied : (allgather count dtype).Supplied inputs fun me => (before me).output)
    (hattempts : ∀ me : Fin n, (allgather count dtype).decomposition? arithmetic ⟨me, n⟩ chunk
      (inputs me) algorithm = some (attempts me)) :
    (allgather count dtype).Achieved arithmetic refusals messages integers position
      ((allgather count dtype).Possible n messages integers chunk algorithm) inputs attempts
      before := by
  obtain ⟨-, hinputs, houtputs⟩ := hsupplied
  cases algorithm with
  | native => cases hattempts ⟨0, hn⟩
  | allgatherAsAllgatherv =>
    obtain rfl := funext fun me => Option.some.inj (hattempts me)
    exact .of_untouched (and_iff_left trivial).symm rfl
      (Decomposition.realizes_allgatherAsAllgatherv hn hready hinputs houtputs)
  | allgatherAsAllreduce =>
    obtain rfl := funext fun me => Option.some.inj (hattempts me)
    exact .of_untouched (and_iff_left trivial).symm rfl
      (Decomposition.realizes_allgatherAsAllreduce hn hready hinputs houtputs)
  | allgatherAsAlltoall =>
    obtain rfl := funext fun me => Option.some.inj (hattempts me)
    exact .of_untouched (and_iff_left trivial).symm rfl
      (Decomposition.realizes_allgatherAsAlltoall hready hinputs houtputs)
  | allgatherAsGatherBcast =>
    obtain rfl := funext fun me => Option.some.inj (hattempts me)
    exact .of_realizes (and_iff_left trivial).symm
      (Decomposition.realizes_allgatherAsGatherBcast hn hready hinputs houtputs)
      (recovers_of_length_le (fun _ => rfl) fun _ => (Bytes.length_concat_slice_zero hinputs).ge)

/-- An allreduce is achieved by each of its decompositions. -/
theorem achieved_allreduce {algorithm : Algorithm .allreduce}
    (hsupplied : (allreduce count dtype op).Supplied inputs fun me => (before me).output)
    (hattempts : ∀ me : Fin n, (allreduce count dtype op).decomposition? arithmetic ⟨me, n⟩ chunk
      (inputs me) algorithm = some (attempts me)) :
    (allreduce count dtype op).Achieved arithmetic refusals messages integers position
      ((allreduce count dtype op).Possible n messages integers chunk algorithm) inputs attempts
      before := by
  obtain ⟨-, hinputs, houtputs⟩ := hsupplied
  have hrecovers : (allreduce count dtype op).Recovers arithmetic inputs
      (fun me => (before me).output) fun _ => count * dtype.size :=
    recovers_of_length_le (fun _ => rfl) fun _ => (Decomposition.length_combined_all hn hinputs).ge
  cases algorithm with
  | native => cases hattempts ⟨0, hn⟩
  | allreduceAsReduceBcast =>
    obtain rfl := funext fun me => Option.some.inj (hattempts me)
    exact .of_realizes (and_iff_right trivial).symm
      (Decomposition.realizes_allreduceAsReduceBcast hn hready hinputs houtputs) hrecovers
  | allreduceAsReduceScatterBlockAllgather =>
    obtain rfl := funext fun me => Option.some.inj (hattempts me)
    exact .of_untouched .rfl rfl
      (Decomposition.realizes_allreduceAsReduceScatterBlockAllgather hn hready hinputs houtputs)
  | allreduceAsReduceScatterAllgatherv =>
    obtain rfl := funext fun me => Option.some.inj (hattempts me)
    exact .of_realizes and_assoc.symm
      (Decomposition.realizes_allreduceAsReduceScatterAllgatherv hn hready chunk hinputs houtputs)
      hrecovers

/-- An exchange between all ranks is achieved by each of its decompositions. -/
theorem achieved_alltoall {algorithm : Algorithm .alltoall}
    (hsupplied : (alltoall count dtype).Supplied inputs fun me => (before me).output)
    (hattempts : ∀ me : Fin n, (alltoall count dtype).decomposition? arithmetic ⟨me, n⟩ chunk
      (inputs me) algorithm = some (attempts me)) :
    (alltoall count dtype).Achieved arithmetic refusals messages integers position
      ((alltoall count dtype).Possible n messages integers chunk algorithm) inputs attempts
      before := by
  obtain ⟨-, hinputs, houtputs⟩ := hsupplied
  cases algorithm with
  | native => cases hattempts ⟨0, hn⟩
  | alltoallAsAlltoallv =>
    obtain rfl := funext fun me => Option.some.inj (hattempts me)
    exact .of_untouched (and_iff_left trivial).symm rfl
      (Decomposition.realizes_alltoallAsAlltoallv hn hready hinputs houtputs)

/-- A broadcast is achieved by each of its decompositions. -/
theorem achieved_bcast {root : Fin n} {algorithm : Algorithm .bcast}
    (hsupplied : (bcast count dtype root).Supplied inputs fun me => (before me).output)
    (hattempts : ∀ me : Fin n, (bcast count dtype root).decomposition? arithmetic ⟨me, n⟩ chunk
      (inputs me) algorithm = some (attempts me)) :
    (bcast count dtype root).Achieved arithmetic refusals messages integers position
      ((bcast count dtype root).Possible n messages integers chunk algorithm) inputs attempts
      before := by
  obtain ⟨-, -, houtputs⟩ := hsupplied
  cases algorithm with
  | native => cases hattempts ⟨0, hn⟩
  | bcastAsAllgatherv =>
    obtain rfl := funext fun me => Option.some.inj (hattempts me)
    exact .of_untouched (and_iff_left trivial).symm (contents_bcast count dtype root)
      (Decomposition.realizes_bcastAsAllgatherv hready root houtputs)
  | bcastAsScatterAllgather =>
    obtain rfl := funext fun me => Option.some.inj (hattempts me)
    exact .of_untouched (and_iff_left trivial).symm (contents_bcast count dtype root)
      (Decomposition.realizes_bcastAsScatterAllgather hn hready root houtputs)

/-- A gather is achieved by each of its decompositions. -/
theorem achieved_gather {root : Fin n} {algorithm : Algorithm .gather}
    (hsupplied : (gather count dtype root).Supplied inputs fun me => (before me).output)
    (hattempts : ∀ me : Fin n, (gather count dtype root).decomposition? arithmetic ⟨me, n⟩ chunk
      (inputs me) algorithm = some (attempts me)) :
    (gather count dtype root).Achieved arithmetic refusals messages integers position
      ((gather count dtype root).Possible n messages integers chunk algorithm) inputs attempts
      before := by
  obtain ⟨-, hinputs, houtputs⟩ := hsupplied
  have houtput := @le_of_root n root (n * (count * dtype.size)) (fun me => (before me).output)
    houtputs
  cases algorithm with
  | native => cases hattempts ⟨0, hn⟩
  | gatherAsAllgather =>
    obtain rfl := funext fun me => Option.some.inj (hattempts me)
    exact .of_untouched (and_iff_left trivial).symm (contents_gather count dtype root)
      (Decomposition.realizes_gatherAsAllgather hready root hinputs houtput)
  | gatherAsGatherv =>
    obtain rfl := funext fun me => Option.some.inj (hattempts me)
    exact .of_untouched (and_iff_left trivial).symm (contents_gather count dtype root)
      (Decomposition.realizes_gatherAsGatherv hn hready root hinputs houtput)
  | gatherAsReduce =>
    obtain rfl := funext fun me => Option.some.inj (hattempts me)
    exact .of_untouched (and_iff_left trivial).symm (contents_gather count dtype root)
      (Decomposition.realizes_gatherAsReduce hn hready root hinputs houtput)

/-- A reduce is achieved by each of its decompositions. -/
theorem achieved_reduce {root : Fin n} {algorithm : Algorithm .reduce}
    (hsupplied : (reduce count dtype op root).Supplied inputs fun me => (before me).output)
    (hattempts : ∀ me : Fin n, (reduce count dtype op root).decomposition? arithmetic ⟨me, n⟩ chunk
      (inputs me) algorithm = some (attempts me)) :
    (reduce count dtype op root).Achieved arithmetic refusals messages integers position
      ((reduce count dtype op root).Possible n messages integers chunk algorithm) inputs attempts
      before := by
  obtain ⟨-, hinputs, houtputs⟩ := hsupplied
  have houtput := @le_of_root n root (count * dtype.size) (fun me => (before me).output) houtputs
  cases algorithm with
  | native => cases hattempts ⟨0, hn⟩
  | reduceAsAllreduce =>
    obtain rfl := funext fun me => Option.some.inj (hattempts me)
    exact .of_untouched .rfl (contents_reduce count dtype op root)
      (Decomposition.realizes_reduceAsAllreduce hn hready root hinputs houtput)
  | reduceAsReduceScatterBlockGather =>
    obtain rfl := funext fun me => Option.some.inj (hattempts me)
    exact .of_untouched .rfl (contents_reduce count dtype op root)
      (Decomposition.realizes_reduceAsReduceScatterBlockGather hn hready root hinputs houtput)
  | reduceAsReduceScatterGatherv =>
    obtain rfl := funext fun me => Option.some.inj (hattempts me)
    refine .of_untouched ?_ (contents_reduce count dtype op root)
      (Decomposition.realizes_reduceAsReduceScatterGatherv hn hready root chunk hinputs houtput)
    simp only [Possible, HasRoom, Combinable, and_assoc]

/-- A reduce-scatter of equal blocks is achieved by each of its decompositions. -/
theorem achieved_reduceScatterBlock {algorithm : Algorithm .reduceScatterBlock}
    (hsupplied : (reduceScatterBlock count dtype op).Supplied inputs fun me => (before me).output)
    (hattempts : ∀ me : Fin n, (reduceScatterBlock count dtype op).decomposition? arithmetic ⟨me, n⟩
      chunk (inputs me) algorithm = some (attempts me)) :
    (reduceScatterBlock count dtype op).Achieved arithmetic refusals messages integers position
      ((reduceScatterBlock count dtype op).Possible n messages integers chunk algorithm) inputs
      attempts before := by
  obtain ⟨-, hinputs, houtputs⟩ := hsupplied
  have hinputs (me : Fin n) : n * count * dtype.size ≤ (inputs me).length :=
    (Nat.mul_assoc _ _ _).trans_le (hinputs me)
  cases algorithm with
  | native => cases hattempts ⟨0, hn⟩
  | reduceScatterBlockAsReduceScatter =>
    obtain rfl := funext fun me => Option.some.inj (hattempts me)
    exact .of_untouched .rfl rfl
      (Decomposition.realizes_reduceScatterBlockAsReduceScatter hn hready hinputs houtputs)

/-- A scan is achieved by each of its decompositions. -/
theorem achieved_scan {algorithm : Algorithm .scan}
    (hsupplied : (scan count dtype op).Supplied inputs fun me => (before me).output)
    (hattempts : ∀ me : Fin n, (scan count dtype op).decomposition? arithmetic ⟨me, n⟩ chunk
      (inputs me) algorithm = some (attempts me)) :
    (scan count dtype op).Achieved arithmetic refusals messages integers position
      ((scan count dtype op).Possible n messages integers chunk algorithm) inputs attempts
      before := by
  obtain ⟨-, hinputs, houtputs⟩ := hsupplied
  cases algorithm with
  | native => cases hattempts ⟨0, hn⟩
  | scanAsExscanReduceLocal =>
    obtain rfl := funext fun me => Option.some.inj (hattempts me)
    exact .of_untouched (and_iff_right trivial).symm rfl
      (Decomposition.realizes_scanAsExscanReduceLocal hready hinputs houtputs)

/-- A scatter is achieved by each of its decompositions. -/
theorem achieved_scatter {root : Fin n} {algorithm : Algorithm .scatter}
    (hsupplied : (scatter count dtype root).Supplied inputs fun me => (before me).output)
    (hattempts : ∀ me : Fin n, (scatter count dtype root).decomposition? arithmetic ⟨me, n⟩ chunk
      (inputs me) algorithm = some (attempts me)) :
    (scatter count dtype root).Achieved arithmetic refusals messages integers position
      ((scatter count dtype root).Possible n messages integers chunk algorithm) inputs attempts
      before := by
  obtain ⟨-, hinputs, houtputs⟩ := hsupplied
  have hinput : n * (count * dtype.size) ≤ (inputs root).length := le_of_root hinputs
  cases algorithm with
  | native => cases hattempts ⟨0, hn⟩
  | scatterAsBcast =>
    obtain rfl := funext fun me => Option.some.inj (hattempts me)
    exact .of_untouched (and_iff_left trivial).symm (contents_scatter count dtype root)
      (Decomposition.realizes_scatterAsBcast hready root hinput houtputs)
  | scatterAsScatterv =>
    obtain rfl := funext fun me => Option.some.inj (hattempts me)
    exact .of_untouched (and_iff_left trivial).symm (contents_scatter count dtype root)
      (Decomposition.realizes_scatterAsScatterv hn hready root hinput houtputs)

/-- **Every decomposition leaves the contents of the request, or fails and spoils nothing.** -/
theorem achieved_of_decomposition {algorithm : Algorithm request.collective}
    (hsupplied : request.Supplied inputs fun me => (before me).output)
    (hattempts : ∀ me : Fin n, request.decomposition? arithmetic ⟨me, n⟩ chunk (inputs me)
      algorithm = some (attempts me)) :
    request.Achieved arithmetic refusals messages integers position
      (request.Possible n messages integers chunk algorithm) inputs attempts before := by
  cases request with
  | allgather => exact achieved_allgather hn hready chunk hsupplied hattempts
  | allreduce => exact achieved_allreduce hn hready chunk hsupplied hattempts
  | alltoall => exact achieved_alltoall hn hready chunk hsupplied hattempts
  | bcast =>
    obtain ⟨root, rfl⟩ := hsupplied.exists_root rfl
    exact achieved_bcast hn hready chunk hsupplied hattempts
  | gather =>
    obtain ⟨root, rfl⟩ := hsupplied.exists_root rfl
    exact achieved_gather hn hready chunk hsupplied hattempts
  | reduce =>
    obtain ⟨root, rfl⟩ := hsupplied.exists_root rfl
    exact achieved_reduce hn hready chunk hsupplied hattempts
  | reduceScatterBlock => exact achieved_reduceScatterBlock hn hready chunk hsupplied hattempts
  | scan => exact achieved_scan hn hready chunk hsupplied hattempts
  | scatter =>
    obtain ⟨root, rfl⟩ := hsupplied.exists_root rfl
    exact achieved_scatter hn hready chunk hsupplied hattempts

end Decompositions

end CollectiveTuner.Request
