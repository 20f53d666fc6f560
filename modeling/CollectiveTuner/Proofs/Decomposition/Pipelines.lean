import CollectiveTuner.Decomposition.Combining
import CollectiveTuner.Proofs.Decomposition.Plans
import CollectiveTuner.Proofs.Reduction.Merge

/-!
# The plans of the decompositions

Every decomposition has a plan that does not depend on the rank, but for the number of elements
that the rank contributes to a gatherv. It works through its plan when scratch space is large
enough and the numbers of its layout fit in a header, on all replies alike.
-/

namespace CollectiveTuner.Decomposition

open Attempt Scratch Reduction

variable {pattern : Pattern} {replies : Replies} {position : Nat} {before : Workspace} {me : Member}
  {messages integers : Nat} {input : Bytes} {count root : Nat} {dtype : Datatype} {op : ReduceOp}

section Plans

variable (hanswers : Answers pattern replies) (hready : before.arena.Ready messages integers)

include hanswers hready

/-! ### Layouts -/

/-- A single call on the whole of the output with a layout of equal blocks. -/
theorem pursues_of_equal_layout (hsize : 0 < me.size)
    {attempt : List Nat × List Nat → Attempt Unit} {primitive : Primitive}
    (hattempt : attempt (Layout.equalCounts me.size count, Layout.equalDispls me.size count) =
      wholeOutput >>= issue primitive input) :
    Pursues pattern replies position
      ((withLease (uniformLayout me count >>= attempt)).run.run before) before.output
      (2 * me.size ≤ integers ∧ Layout.UniformFits me.size count) [primitive]
      (Arena.Ready messages integers) := by
  refine .withLease ?_
  by_cases hroom : 2 * me.size ≤ integers ∧ Layout.UniformFits me.size count
  · obtain ⟨after, hafter, hcourse⟩ := run_uniformLayout rfl hready.2 hroom.1 hroom.2 attempt
    rw [hcourse, hattempt, ← hafter.output]
    exact .issue_whole hanswers hroom (hafter.sized hready.sized)
  · obtain ⟨error, after, hafter, hcourse⟩ :=
      run_uniformLayout_error rfl hready.2 hsize hroom attempt
    exact .fails hroom ⟨error, hcourse⟩ (hafter.sized hready.sized) hafter.output

/-- When there is room for the layout, the allgather is one allgatherv with equal blocks. -/
theorem pursues_allgatherAsAllgatherv (hsize : 0 < me.size) :
    Pursues pattern replies position
      ((allgatherAsAllgatherv me input count dtype).run.run before) before.output
      (2 * me.size ≤ integers ∧ Layout.UniformFits me.size count)
      [.allgatherv count (Layout.equalCounts me.size count) (Layout.equalDispls me.size count)
        dtype] (Arena.Ready messages integers) :=
  pursues_of_equal_layout hanswers hready hsize rfl

/-- When there is room for the layout, the alltoall is one alltoallv with equal blocks. -/
theorem pursues_alltoallAsAlltoallv (hsize : 0 < me.size) :
    Pursues pattern replies position
      ((alltoallAsAlltoallv me input count dtype).run.run before) before.output
      (2 * me.size ≤ integers ∧ Layout.UniformFits me.size count)
      [.alltoallv (Layout.equalCounts me.size count) (Layout.equalDispls me.size count)
        (Layout.equalCounts me.size count) (Layout.equalDispls me.size count) dtype]
      (Arena.Ready messages integers) :=
  pursues_of_equal_layout hanswers hready hsize rfl

/-- When there is room for the layout, the gather is one gatherv with equal blocks. -/
theorem pursues_gatherAsGatherv (hsize : 0 < me.size) :
    Pursues pattern replies position
      ((gatherAsGatherv me input count dtype root).run.run before) before.output
      (2 * me.size ≤ integers ∧ Layout.UniformFits me.size count)
      [.gatherv count (Layout.equalCounts me.size count) (Layout.equalDispls me.size count) dtype
        root] (Arena.Ready messages integers) :=
  pursues_of_equal_layout hanswers hready hsize rfl

/-- When there is room for the layout, the scatter is one scatterv with equal blocks. -/
theorem pursues_scatterAsScatterv (hsize : 0 < me.size) :
    Pursues pattern replies position
      ((scatterAsScatterv me input count dtype root).run.run before) before.output
      (2 * me.size ≤ integers ∧ Layout.UniformFits me.size count)
      [.scatterv (Layout.equalCounts me.size count) (Layout.equalDispls me.size count) count dtype
        root] (Arena.Ready messages integers) :=
  pursues_of_equal_layout hanswers hready hsize rfl

/-- When there is room for the layout, the broadcast is one allgatherv in place, to which only the
root contributes. -/
theorem pursues_bcastAsAllgatherv :
    Pursues pattern replies position ((bcastAsAllgatherv me count dtype root).run.run before)
      before.output (2 * me.size ≤ integers ∧ count < UInt32.size)
      [.allgathervInPlace (Layout.singleCounts me.size root count)
        (Layout.singleDispls me.size root count) dtype] (Arena.Ready messages integers) := by
  refine .withLease ?_
  rcases Nat.lt_or_ge integers (2 * me.size) with hsmall | hlayout
  · obtain ⟨error, after, hafter, hcourse⟩ := run_grabLayout_error rfl hready.2 hsmall _
    exact .fails (fun h => absurd h.1 (by omega)) ⟨error, hcourse⟩ (hafter.sized hready.sized)
      hafter.output
  obtain ⟨after, hafter, hcourse⟩ := run_grabLayout rfl hready.2 hlayout _
  have hsized := hafter.sized hready.sized
  rw [hcourse, ← hafter.output]
  by_cases hfits : count < UInt32.size
  · rw [run_lift (toCount_eq_ok hfits)]
    exact .bind_storeIntegers (.bind_storeIntegers (.issue_whole hanswers ⟨hlayout, hfits⟩ hsized))
  · exact .fails (fun h => hfits h.2) ⟨_, run_lift_error (toCount_eq_error hfits) _⟩ hsized rfl

/-! ### Whole vectors in scratch space -/

/-- A single call on what a region has been filled with. -/
theorem pursues_of_filled {size : Nat} {contents : Bytes} {primitive : Primitive} :
    Pursues pattern replies position
      ((grabMessages .first size >>= fun region => writeScratch region contents >>= fun _ =>
        readScratch region >>= fun vector => wholeOutput >>= issue primitive vector).run.run before)
      before.output (size ≤ messages) [primitive] (Arena.Sized messages integers) := by
  refine .bind_grabMessages_first hready.1 hready.sized (fun hfits => ?_) id
  refine .bind_writeScratch (.bind_readScratch (.issue_whole hanswers hfits ?_))
  rw [Workspace.sized_fill, Workspace.sized_holdMessages]
  exact hready.sized

/-- A single call on this rank's block among zeros. -/
theorem pursues_of_ownBlock {block : Nat} {primitive : Primitive} (hinput : block ≤ input.length) :
    Pursues pattern replies position
      ((withLease (ownBlockAmongZeros me input block >>= fun region => readScratch region >>=
        fun vector => wholeOutput >>= issue primitive vector)).run.run before) before.output
      (me.size * block ≤ messages) [primitive] (Arena.Ready messages integers) := by
  have hblock : 0 + block ≤ input.length := by simpa using hinput
  refine .withLease ?_
  simp only [ownBlockAmongZeros, bind_assoc, pure_bind]
  rw [run_lift (Bytes.span_eq_ok hblock)]
  exact pursues_of_filled hanswers hready

/-- When there is room for all blocks, the allgather is one allreduce of bytes. -/
theorem pursues_allgatherAsAllreduce (hinput : count * dtype.size ≤ input.length) :
    Pursues pattern replies position ((allgatherAsAllreduce me input count dtype).run.run before)
      before.output (me.size * (count * dtype.size) ≤ messages)
      [.allreduce (me.size * (count * dtype.size)) .uint8 .bitOr] (Arena.Ready messages integers) :=
  pursues_of_ownBlock hanswers hready hinput

/-- When there is room for all blocks, the gather is one reduce of bytes. -/
theorem pursues_gatherAsReduce (hinput : count * dtype.size ≤ input.length) :
    Pursues pattern replies position ((gatherAsReduce me input count dtype root).run.run before)
      before.output (me.size * (count * dtype.size) ≤ messages)
      [.reduce (me.size * (count * dtype.size)) .uint8 .bitOr root]
      (Arena.Ready messages integers) :=
  pursues_of_ownBlock hanswers hready hinput

/-- When there is room for all blocks, the allgather is one alltoall. -/
theorem pursues_allgatherAsAlltoall (hinput : count * dtype.size ≤ input.length) :
    Pursues pattern replies position ((allgatherAsAlltoall me input count dtype).run.run before)
      before.output (me.size * (count * dtype.size) ≤ messages) [.alltoall count dtype]
      (Arena.Ready messages integers) := by
  have hblock : 0 + count * dtype.size ≤ input.length := by simpa using hinput
  refine .withLease ?_
  dsimp only
  rw [run_lift (Bytes.span_eq_ok hblock)]
  exact pursues_of_filled hanswers hready

/-- A single call that writes to the caller's buffer at the root, and to scratch space everywhere
else. -/
theorem pursues_of_root (me : Member) (root : Nat) (input : Bytes) {size : Nat}
    {primitive : Primitive} {attempt : Region → Attempt Unit}
    (hattempt : ∀ region, attempt region =
      (if me.rank = root then wholeOutput else pure (.scratch region)) >>=
        issue primitive input) :
    Pursues pattern replies position
      ((withLease (grabMessages .first size >>= attempt)).run.run before)
      before.output (size ≤ messages) [primitive] (Arena.Ready messages integers) := by
  have hsized : (before.holdMessages .first size).arena.Sized messages integers :=
    (Workspace.sized_holdMessages _ _ _).mpr hready.sized
  refine .withLease (.bind_grabMessages_first hready.1 hready.sized (fun hfits => ?_) id)
  rw [hattempt]
  split
  · exact .issue_whole hanswers hfits hsized
  · rw [pure_bind]
    exact .issue hanswers hfits fun _ => hsized

/-- When there is room for all blocks, the gather is one allgather. -/
theorem pursues_gatherAsAllgather :
    Pursues pattern replies position ((gatherAsAllgather me input count dtype root).run.run before)
      before.output (me.size * (count * dtype.size) ≤ messages) [.allgather count dtype]
      (Arena.Ready messages integers) := by
  refine pursues_of_root hanswers hready me root input fun region => ?_
  split <;> rfl

/-- When there is room for the result, the reduce is one allreduce. -/
theorem pursues_reduceAsAllreduce :
    Pursues pattern replies position
      ((reduceAsAllreduce me input count dtype op root).run.run before) before.output
      (count * dtype.size ≤ messages) [.allreduce count dtype op]
      (Arena.Ready messages integers) := by
  refine pursues_of_root hanswers hready me root input fun region => ?_
  split <;> rfl

/-- When there is room for the vector, the reduce-scatter is a reduce and a scatter, both at rank
0. -/
theorem pursues_reduceScatterBlockAsReduceScatter :
    Pursues pattern replies position
      ((reduceScatterBlockAsReduceScatter me input count dtype op).run.run before) before.output
      (me.size * count * dtype.size ≤ messages)
      [.reduce (me.size * count) dtype op 0, .scatter count dtype 0]
      (Arena.Ready messages integers) := by
  refine .withLease ?_
  dsimp only
  refine .bind_grabMessages_first hready.1 hready.sized (fun hfits => ?_) id
  have hsized : (before.holdMessages .first (me.size * count * dtype.size)).arena.Sized messages
      integers := (Workspace.sized_holdMessages _ _ _).mpr hready.sized
  refine .bind_issue hanswers hfits (fun _ bytes _ => ?_) fun _ => hsized
  exact .bind_readScratch (.issue_whole hanswers hfits hsized)

/-- When there is room for all blocks, the scatter is one broadcast of them. -/
theorem pursues_scatterAsBcast
    (hinput : me.rank = root → me.size * (count * dtype.size) ≤ input.length)
    (houtput : count * dtype.size ≤ before.output.length) :
    Pursues pattern replies position ((scatterAsBcast me input count dtype root).run.run before)
      before.output (me.size * (count * dtype.size) ≤ messages)
      [.bcast (me.size * count) dtype root]
      (Arena.Ready messages integers) := by
  have hblock : 0 + count * dtype.size ≤ before.output.length := by simpa using houtput
  unfold scatterAsBcast
  dsimp only
  rw [run_checkOutput hblock]
  have hsized : (before.holdMessages .first (me.size * (count * dtype.size))).arena.Sized messages
      integers := (Workspace.sized_holdMessages _ _ _).mpr hready.sized
  refine .withLease (.bind_grabMessages_first hready.1 hready.sized (fun hfits => ?_) id)
  refine .of_ite (Arena.Sized messages integers) hsized (fun hroot => ?_) fun after hafter => ?_
  · have hspan : 0 + me.size * (count * dtype.size) ≤ input.length := by simpa using hinput hroot
    rw [run_lift (Bytes.span_eq_ok hspan)]
    exact ⟨(before.holdMessages .first _).fill _ _, hsized, rfl, rfl⟩
  · exact .bind_issue hanswers hfits
      (fun _ _ _ => .bind_readScratch (.writeOutput hfits hafter)) fun _ => hafter

/-! ### Blocks of a padded vector -/

/-- When there is room for the padded vector and one block, the broadcast is a scatter and an
allgather. -/
theorem pursues_bcastAsScatterAllgather (houtput : count * dtype.size ≤ before.output.length) :
    Pursues pattern replies position
      ((bcastAsScatterAllgather me count dtype root).run.run before) before.output
      (Layout.paddedCount count me.size * dtype.size +
        Layout.paddedCount count me.size / me.size * dtype.size ≤ messages)
      [.scatter (Layout.paddedCount count me.size / me.size) dtype root,
        .allgather (Layout.paddedCount count me.size / me.size) dtype]
      (Arena.Ready messages integers) := by
  have hblock : 0 + count * dtype.size ≤ before.output.length := by simpa using houtput
  unfold bcastAsScatterAllgather
  dsimp only
  rw [run_checkOutput hblock]
  refine .withLease (.bind_grabBlocks hready (fun hfits full part held _ hheld => ?_) id)
  refine .of_ite (Arena.Sized messages integers) hheld
    (fun _ => ⟨held.fill full _, hheld, rfl, rfl⟩) fun after hafter => ?_
  refine .bind_readScratch (.bind_issue hanswers hfits (fun _ _ _ => ?_) fun _ => hafter)
  refine .bind_readScratch (.bind_issue hanswers hfits (fun _ _ _ => ?_) fun _ => hafter)
  split
  · exact .bind_readScratch (.writeOutput hfits hafter)
  · exact .ends hfits hafter

/-- Two calls on blocks of the padded input, the first of which combines them. -/
theorem pursues_of_blocks {padded chunk : Nat} {second : Primitive} {next : Region → Attempt Unit}
    (hnext : ∀ (full : Region) (after : Workspace), after.arena.Sized messages integers →
      padded * dtype.size + chunk * dtype.size ≤ messages →
      Pursues pattern replies (position + 1 + 1) ((next full).run.run after) after.output
        (padded * dtype.size + chunk * dtype.size ≤ messages) [] (Arena.Sized messages integers))
    (elements : Bytes) :
    Pursues pattern replies position
      ((withLease (grabMessages .first (padded * dtype.size) >>= fun full =>
        grabMessages .second (chunk * dtype.size) >>= fun part =>
          writePadded full elements count padded dtype.size >>= fun _ =>
            readScratch full >>= fun vector =>
              issue (.reduceScatterBlock chunk dtype op) vector (.scratch part) >>= fun _ =>
                readScratch part >>= fun block =>
                  issue second block (.scratch full) >>= fun _ => next full)).run.run before)
      before.output (padded * dtype.size + chunk * dtype.size ≤ messages)
      [.reduceScatterBlock chunk dtype op, second] (Arena.Ready messages integers) := by
  refine .withLease (.bind_grabBlocks hready (fun hfits full part held _ hheld => ?_) id)
  rw [run_writePadded]
  refine .bind_readScratch (.bind_issue hanswers hfits (fun _ _ _ => ?_) fun _ => hheld)
  refine .bind_readScratch (.bind_issue hanswers hfits (fun _ _ _ => ?_) fun _ => hheld)
  exact hnext full _ hheld hfits

/-- When there is room for the padded vector and one block, the allreduce is a reduce-scatter of
blocks and an allgather. -/
theorem pursues_allreduceAsReduceScatterBlockAllgather
    (hinput : count * dtype.size ≤ input.length)
    (houtput : count * dtype.size ≤ before.output.length) :
    Pursues pattern replies position
      ((allreduceAsReduceScatterBlockAllgather me input count dtype op).run.run before)
      before.output
      (Layout.paddedCount count me.size * dtype.size +
        Layout.paddedCount count me.size / me.size * dtype.size ≤ messages)
      [.reduceScatterBlock (Layout.paddedCount count me.size / me.size) dtype op,
        .allgather (Layout.paddedCount count me.size / me.size) dtype]
      (Arena.Ready messages integers) := by
  have hinput : 0 + count * dtype.size ≤ input.length := by simpa using hinput
  have houtput : 0 + count * dtype.size ≤ before.output.length := by simpa using houtput
  unfold allreduceAsReduceScatterBlockAllgather
  dsimp only
  rw [run_lift (Bytes.span_eq_ok hinput), run_checkOutput houtput]
  refine pursues_of_blocks hanswers hready (fun full after hafter hfits => ?_) _
  exact .bind_readScratch (.writeOutput hfits hafter)

/-- When there is room for the padded vector and one block, the reduce is a reduce-scatter of blocks
and a gather. -/
theorem pursues_reduceAsReduceScatterBlockGather
    (hinput : count * dtype.size ≤ input.length)
    (houtput : me.rank = root → count * dtype.size ≤ before.output.length) :
    Pursues pattern replies position
      ((reduceAsReduceScatterBlockGather me input count dtype op root).run.run before) before.output
      (Layout.paddedCount count me.size * dtype.size +
        Layout.paddedCount count me.size / me.size * dtype.size ≤ messages)
      [.reduceScatterBlock (Layout.paddedCount count me.size / me.size) dtype op,
        .gather (Layout.paddedCount count me.size / me.size) dtype root]
      (Arena.Ready messages integers) := by
  have hinput : 0 + count * dtype.size ≤ input.length := by simpa using hinput
  unfold reduceAsReduceScatterBlockGather
  dsimp only
  rw [run_lift (Bytes.span_eq_ok hinput)]
  refine .of_ite (Arena.Ready messages integers) hready (fun hroot => ?_) fun after hafter => ?_
  · have hblock : 0 + count * dtype.size ≤ before.output.length := by simpa using houtput hroot
    exact ⟨before, hready, rfl, run_checkOutput hblock _⟩
  · refine pursues_of_blocks hanswers hafter (fun full last hlast hfits => ?_) _
    split
    · exact .bind_readScratch (.writeOutput hfits hlast)
    · exact .ends hfits hlast

/-! ### Round-robin shares -/

/-- When there is room for the layout, the allreduce is a reduce-scatter of shares and an allgatherv
in place. -/
theorem pursues_allreduceAsReduceScatterAllgatherv (hrank : me.rank < me.size) (chunk : Nat)
    (houtput : count * dtype.size ≤ before.output.length) :
    Pursues pattern replies position
      ((allreduceAsReduceScatterAllgatherv me input count dtype op chunk).run.run before)
      before.output (2 * me.size ≤ integers ∧ count < UInt32.size)
      [.reduceScatter (Layout.shares me.size count chunk) dtype op,
        .allgathervInPlace (Layout.shares me.size count chunk)
          (Layout.displacements (Layout.shares me.size count chunk)) dtype]
      (Arena.Ready messages integers) := by
  refine .withLease ?_
  dsimp only
  by_cases hroom : 2 * me.size ≤ integers ∧ count < UInt32.size
  · obtain ⟨after, hafter, hcourse⟩ := run_grabShares rfl hready.2 hroom.1 hroom.2 chunk _
    have hsized := hafter.sized hready.sized
    have hblock := Nat.mul_le_mul_right dtype.size (Layout.share_stop_le count chunk hrank)
    rw [Nat.add_mul] at hblock
    rw [hcourse, ← hafter.output]
    refine .bind_storeIntegers (.bind_storeIntegers ?_)
    rw [run_checkOutput (hblock.trans (hafter.output ▸ houtput))]
    exact .bind_issue hanswers hroom (fun _ _ _ => .issue_whole hanswers hroom hsized)
      fun _ => hsized
  · obtain ⟨error, after, hafter, hcourse⟩ := run_grabShares_error rfl hready.2 hroom chunk _
    exact .fails hroom ⟨error, hcourse⟩ (hafter.sized hready.sized) hafter.output

/-- When there is room for the layout and the largest share, the reduce is a reduce-scatter of
shares and a gatherv. -/
theorem pursues_reduceAsReduceScatterGatherv (chunk : Nat) :
    Pursues pattern replies position
      ((reduceAsReduceScatterGatherv me input count dtype op root chunk).run.run before)
      before.output
      (2 * me.size ≤ integers ∧ count < UInt32.size ∧
        (Layout.shares me.size count chunk).foldl max 0 * dtype.size ≤ messages)
      [.reduceScatter (Layout.shares me.size count chunk) dtype op,
        .gatherv ((Layout.shares me.size count chunk)[me.rank]?.getD 0)
          (Layout.shares me.size count chunk)
          (Layout.displacements (Layout.shares me.size count chunk)) dtype root]
      (Arena.Ready messages integers) := by
  refine .withLease ?_
  dsimp only
  by_cases hlayout : 2 * me.size ≤ integers ∧ count < UInt32.size
  · obtain ⟨after, hafter, hcourse⟩ := run_grabShares rfl hready.2 hlayout.1 hlayout.2 chunk _
    have hsized := hafter.sized hready.sized
    have hshape : after.arena.messages.shape = .free 1 messages := hafter.messages ▸ hready.1
    rw [hcourse, ← hafter.output]
    refine .bind_storeIntegers (.bind_grabMessages_first hshape hsized (fun hfits => ?_)
      fun h => h.2.2)
    have hroom := And.intro hlayout.1 (And.intro hlayout.2 hfits)
    refine .bind_issue hanswers hroom (fun _ _ _ => ?_) fun _ => hsized
    exact .bind_storeIntegers (.bind_readScratch (.issue_whole hanswers hroom hsized))
  · obtain ⟨error, after, hafter, hcourse⟩ := run_grabShares_error rfl hready.2 hlayout chunk _
    exact .fails (fun h => hlayout ⟨h.1, h.2.1⟩) ⟨error, hcourse⟩ (hafter.sized hready.sized)
      hafter.output

/-! ### Without scratch space -/

/-- The allgather is a gather and a broadcast. -/
theorem pursues_allgatherAsGatherBcast
    (houtput : me.size * (count * dtype.size) ≤ before.output.length) :
    Pursues pattern replies position ((allgatherAsGatherBcast me input count dtype).run.run before)
      before.output True [.gather count dtype 0, .bcast (me.size * count) dtype 0]
      (Arena.Ready messages integers) := by
  have hblock : 0 + me.size * count * dtype.size ≤ before.output.length := by
    rw [Nat.zero_add, Nat.mul_assoc]
    exact houtput
  unfold allgatherAsGatherBcast
  dsimp only
  rw [run_checkOutput hblock]
  exact .bind_issue hanswers trivial (fun _ _ _ => .issue hanswers trivial fun _ => hready)
    fun _ => hready

/-- The allreduce is a reduce and a broadcast. -/
theorem pursues_allreduceAsReduceBcast :
    Pursues pattern replies position
      ((allreduceAsReduceBcast input count dtype op).run.run before) before.output True
      [.reduce count dtype op 0, .bcast count dtype 0] (Arena.Ready messages integers) :=
  .bind_wholeOutput (.bind_issue hanswers trivial
    (fun _ _ _ => .issue_whole hanswers trivial hready) fun _ => hready)

/-- An exclusive scan is followed by a combination that makes no call and must not fail. -/
theorem pursues_scanAsExscanReduceLocal {arithmetic : FloatArithmetic}
    (hlocal : pattern position = true → Supported dtype op)
    (hinput : count * dtype.size ≤ input.length)
    (houtput : count * dtype.size ≤ before.output.length) :
    Pursues pattern replies position
      ((scanAsExscanReduceLocal arithmetic me input count dtype op).run.run before)
      before.output True [.exscan count dtype op] (Arena.Ready messages integers) := by
  have hspan : 0 + count * dtype.size ≤ input.length := by simpa using hinput
  have hblock : 0 + count * dtype.size ≤ before.output.length := by simpa using houtput
  unfold scanAsExscanReduceLocal
  dsimp only
  rw [run_lift (Bytes.span_eq_ok hspan), run_checkOutput hblock]
  refine .bind_wholeOutput (.bind_issue hanswers trivial (fun hpasses bytes hlength => ?_)
    fun _ => hready)
  split
  · exact .writeOutput trivial hready
  · let scanned := before.output.overwrite 0 bytes
    have hbytes : bytes.length = before.output.length := by
      rw [hlength]
      exact congrArg List.length (Bytes.slice_self before.output)
    have hscanned : count * dtype.size ≤ scanned.length :=
      houtput.trans (Bytes.length_overwrite (by rw [hbytes, Nat.zero_add])).ge
    change Pursues _ _ _ ((liftM (accumulate arithmetic dtype op count scanned input) >>=
      writeOutput 0 : Attempt Unit).run.run { before with output := scanned }) _ _ _ _
    rw [run_lift (accumulate_eq_ok (hlocal hpasses) hscanned hinput)]
    exact .writeOutput trivial hready

end Plans

end CollectiveTuner.Decomposition
