import CollectiveTuner.Decomposition.Combining
import CollectiveTuner.Proofs.Decomposition.Movement

/-!
# What the decompositions that combine elements leave

Each decomposition of allreduce, reduce, reduce-scatter-block and scan leaves the combination
that the native operation leaves, folded over the ranks in the same order. No law of how two
elements are combined is used.
-/

namespace CollectiveTuner.Decomposition

open Attempt Native Scratch Reduction
open Bytes (concat place)

variable {n : Nat} {arithmetic : FloatArithmetic} {refusals : Refusals n}
  {messages integers position : Nat} {before : Fin n → Workspace} {inputs : Fin n → Bytes}
  {count : Nat} {dtype : Datatype} {op : ReduceOp}

/-- The combination of all vectors has the length of the vectors. -/
theorem length_combined_all (hn : 0 < n) (hinputs : ∀ me, count * dtype.size ≤ (inputs me).length) :
    (combined arithmetic dtype op count inputs (List.finRange n)).length = count * dtype.size :=
  length_combined hinputs (List.ne_nil_of_mem (List.mem_finRange ⟨0, hn⟩))

/-- The combination of longer vectors begins with the combination of their first elements. -/
theorem take_combined {vectors : Fin n → Bytes} {padded : Nat} (hcount : count ≤ padded)
    (hvectors : ∀ me, (vectors me).take (count * dtype.size) =
      (inputs me).slice 0 (count * dtype.size)) (ranks : List (Fin n)) :
    (combined arithmetic dtype op padded vectors ranks).take (count * dtype.size) =
      combined arithmetic dtype op count inputs ranks := by
  have hslice := @slice_combined n vectors padded dtype op arithmetic 0 count (by omega) ranks
  simp only [Nat.zero_mul, Bytes.slice_start, hvectors] at hslice
  exact hslice

/-- The share of a rank in the combination, when the shares of all ranks follow each other. -/
def share (arithmetic : FloatArithmetic) (dtype : Datatype) (op : ReduceOp) (count : Nat)
    (inputs : Fin n → Bytes) (counts : List Nat) (me : Fin n) : Bytes :=
  (combined arithmetic dtype op count inputs (List.finRange n)).slice
    (Layout.displacement counts me * dtype.size) (counts[(me : Nat)]?.getD 0 * dtype.size)

section Requests

variable (hn : 0 < n)

include hn

/-! ### Reduce to rank 0 and bcast -/

/-- Reducing to one rank and broadcasting the result realizes an allreduce. -/
theorem realizes_allreduceAsReduceBcast {kept : Arena → Prop}
    (hkept : ∀ me, kept (before me).arena)
    (hinputs : ∀ me, count * dtype.size ≤ (inputs me).length)
    (houtputs : ∀ me, count * dtype.size ≤ (before me).output.length) :
    Realizes arithmetic refusals kept (Supported dtype op) (fun me => (before me).output)
      (fun _ => combined arithmetic dtype op count inputs (List.finRange n))
      (fun _ => count * dtype.size) position
      (fun me => allreduceAsReduceBcast (inputs me) count dtype op) before := by
  let root : Fin n := ⟨0, hn⟩
  let reduced := combined arithmetic dtype op count inputs (List.finRange n)
  have hlength : reduced.length = count * dtype.size := length_combined_all hn hinputs
  have hfits (me : Fin n) : 0 + reduced.length ≤ (before me).output.length := by
    rw [hlength, Nat.zero_add]
    exact houtputs me
  -- What the reduce leaves in each output.
  let middle (me : Fin n) : Bytes :=
    if me = root then (before me).output.overwrite 0 reduced else (before me).output
  have hmiddle (me : Fin n) : (middle me).length = (before me).output.length := by
    simp only [middle]
    split
    · exact Bytes.length_overwrite (hfits me)
    · rfl
  have hreduce := @serves_reduce n inputs (fun me => (before me).output) count dtype op arithmetic
    root hinputs (houtputs root)
  have hbcast := @together_bcast n middle count dtype root fun me => (hmiddle me).symm ▸ houtputs me
  have hblock : (middle root).slice 0 (count * dtype.size) = reduced := by
    rw [← hlength, show middle root = _ from if_pos rfl]
    exact Bytes.slice_overwrite (Nat.zero_le _)
  rw [hblock] at hbcast
  refine .bind_wholeOutput (.bind (.issue_whole hreduce hmiddle (fun hsupported => ?_)
    fun hrefused => .of_output_eq (fun h => ⟨position, by omega, hrefused h⟩) hkept fun _ => rfl))
  refine Realizes.last_whole hbcast.serves (iff_true_intro hsupported) hkept (fun me => ?_)
    (fun me => by simpa using hfits me) fun me => ?_
  · dsimp only
    split
    · exact .overwrite (by rw [hlength, Nat.zero_add]) (hfits me)
    · exact .of_eq rfl
  · simp only [middle]
    split
    · exact Bytes.overwrite_zero_overwrite (Nat.zero_le _) (Nat.zero_add _).le
    · rfl

/-! ### Blocks of a padded vector -/

variable (hready : ∀ me, (before me).arena.Ready messages integers)

include hready

omit hn hready in
/-- A region that is filled with the elements and their padding. -/
theorem bind_writePadded {region : Region} {elements : Fin n → Bytes} {padded extent : Nat}
    {next : Fin n → Unit → Attempt Unit}
    {succeeds : Nat → (Fin n → Unit) → (Fin n → Workspace) → Prop}
    {fails : Nat → (Fin n → Workspace) → Prop}
    (hnext : Conducts arithmetic refusals position (fun me => next me ())
      (fun me => (before me).fill region (Layout.padWithFirst
        (Bytes.overwrite ((before me).arena.messages.read region) 0 (elements me)) count padded
          extent)) succeeds fails) :
    Conducts arithmetic refusals position
      (fun me => writePadded region (elements me) count padded extent >>= next me) before succeeds
      fails :=
  hnext.of_course fun me => run_writePadded region (elements me) count padded extent (next me)

/-- Two regions of the message pool, the second of which holds this rank's block of the
combination of the padded vectors. -/
theorem bind_reducedBlocks {padded chunk : Nat} {use : Fin n → Region → Region → Attempt Unit}
    {succeeds : Nat → (Fin n → Unit) → (Fin n → Workspace) → Prop}
    {fails : Nat → (Fin n → Workspace) → Prop} (hcount : count ≤ padded)
    (hchunk : n * chunk = padded) (hinputs : ∀ me, count * dtype.size ≤ (inputs me).length)
    (hgranted : padded * dtype.size + chunk * dtype.size ≤ messages → Supported dtype op →
      chunk < UInt32.size → ∀ (reduced : Bytes) (full part : Region),
      reduced.length = n * (chunk * dtype.size) → full.length = reduced.length →
      reduced.take (count * dtype.size) =
        combined arithmetic dtype op count inputs (List.finRange n) →
      ∀ after : Fin n → Workspace, (∀ me, (after me).output = (before me).output) →
      (∀ me, (after me).arena.Sized messages integers) →
      (∀ me, (after me).arena.messages.read part =
        reduced.slice (me * (chunk * dtype.size)) (chunk * dtype.size)) →
      Conducts arithmetic refusals (position + 1) (fun me => use me full part) after succeeds fails)
    (hrefused : ∀ (stop : Nat) (after : Fin n → Workspace),
      (padded * dtype.size + chunk * dtype.size ≤ messages ∧ Supported dtype op ∧
        chunk < UInt32.size → ∃ called < stop, refusals called ≠ none) →
      (∀ me, (after me).output = (before me).output) →
      (∀ me, (after me).arena.Sized messages integers) → fails stop after) :
    Conducts arithmetic refusals position
      (fun me => grabMessages .first (padded * dtype.size) >>= fun full =>
        grabMessages .second (chunk * dtype.size) >>= fun part =>
          writePadded full ((inputs me).slice 0 (count * dtype.size)) count padded dtype.size >>=
            fun _ => readScratch full >>= fun vector =>
              issue (.reduceScatterBlock chunk dtype op) vector (.scratch part) >>= fun _ =>
                use me full part) before succeeds fails := by
  refine .bind_grabBlocks hready
    (fun hfits full part hfull hpart hdisjoint after hafter hsized => ?_)
    fun hlarge after hafter hsized =>
      hrefused position after (fun h => absurd h.1 (Nat.not_le.mpr hlarge)) hafter hsized
  let vector (me : Fin n) : Bytes := Layout.padWithFirst
    (Bytes.overwrite ((after me).arena.messages.read full) 0
      ((inputs me).slice 0 (count * dtype.size))) count padded dtype.size
  have hstale (me : Fin n) :
      ((after me).arena.messages.read full).length = padded * dtype.size := by
    rw [Pool.length_read, hfull]
  have helements (me : Fin n) :
      ((inputs me).slice 0 (count * dtype.size)).length = count * dtype.size :=
    Bytes.length_slice_zero (hinputs me)
  have hvector (me : Fin n) : (vector me).length = padded * dtype.size :=
    Layout.length_padWithFirst_overwrite hcount (hstale me) (helements me)
  have htake (me : Fin n) : (vector me).take (count * dtype.size) =
      (inputs me).slice 0 (count * dtype.size) :=
    Layout.take_padWithFirst_overwrite hcount (hstale me) (helements me)
  let reduced := combined arithmetic dtype op padded vector (List.finRange n)
  have hreduced : reduced.length = padded * dtype.size :=
    length_combined_all hn fun me => (hvector me).ge
  have hblocks : reduced.length = n * (chunk * dtype.size) := by
    rw [hreduced, ← hchunk, Nat.mul_assoc]
  have hblock (me : Fin n) := Bytes.length_block hblocks.ge me
  let loaded (me : Fin n) : Workspace := (after me).fill full (vector me)
  have hpart' (me : Fin n) :
      ((loaded me).arena.messages.read part).length = chunk * dtype.size := by
    rw [Pool.length_read, hpart]
  have hserves := @serves_reduceScatterBlock n vector
    (fun me => (loaded me).arena.messages.read part) chunk dtype op arithmetic
    (fun me => by rw [hchunk, hvector]) fun me => (hpart' me).ge
  have hresult (me : Fin n) : Bytes.overwrite ((loaded me).arena.messages.read part) 0
      ((combined arithmetic dtype op (n * chunk) vector (List.finRange n)).slice
        (me * chunk * dtype.size) (chunk * dtype.size)) =
      reduced.slice (me * (chunk * dtype.size)) (chunk * dtype.size) := by
    rw [hchunk, Nat.mul_assoc, Bytes.overwrite_zero_of_length]
    rw [hblock, hpart']
  simp only [hresult] at hserves
  have hread (me : Fin n) : (loaded me).arena.messages.read full = vector me :=
    Workspace.read_fill _ ((hvector me).trans hfull.symm)
  refine bind_writePadded (.bind_readScratch ?_)
  change Conducts _ _ _ (fun me => issue _ ((loaded me).arena.messages.read full) _ >>= _) loaded
    _ _
  simp only [hread]
  refine .bind (.issue_scratch hserves (fun _ => rfl) (fun haccepted => ?_) fun hrefused' => ?_)
  · refine hgranted hfits haccepted.1 haccepted.2 reduced full part hblocks
      (hfull.trans hreduced.symm) (take_combined hcount htake _) _ hafter (fun me => ?_)
      fun me => ?_
    · simpa [loaded] using hsized me
    · exact Workspace.read_fill _ ((hblock me).trans hpart.symm)
  · exact hrefused _ _ (fun h => ⟨position, by omega, hrefused' h.2⟩) hafter
      fun me => by simpa [loaded] using hsized me

/-- Reducing and scattering equal blocks and gathering them everywhere realizes an allreduce. -/
theorem realizes_allreduceAsReduceScatterBlockAllgather
    (hinputs : ∀ me, count * dtype.size ≤ (inputs me).length)
    (houtputs : ∀ me, count * dtype.size ≤ (before me).output.length) :
    Realizes arithmetic refusals (Arena.Ready messages integers)
      (Layout.paddedCount count n * dtype.size +
          Layout.paddedCount count n / n * dtype.size ≤ messages ∧
        Supported dtype op ∧ Layout.paddedCount count n / n < UInt32.size)
      (fun me => (before me).output)
      (fun _ => combined arithmetic dtype op count inputs (List.finRange n)) (fun _ => 0) position
      (fun me => allreduceAsReduceScatterBlockAllgather ⟨me, n⟩ (inputs me) count dtype op)
      before := by
  have hinput (me : Fin n) : 0 + count * dtype.size ≤ (inputs me).length := by
    simpa using hinputs me
  have houtput (me : Fin n) : 0 + count * dtype.size ≤ (before me).output.length := by
    simpa using houtputs me
  refine .bind_lift (fun me => Bytes.span_eq_slice (hinput me))
    (.bind_checkOutput houtput (Realizes.withLease ?_))
  dsimp only
  have hcount := Layout.le_paddedCount count n
  have hchunk := Layout.mul_div_paddedCount hn count
  generalize Layout.paddedCount count n = padded at hcount hchunk ⊢
  generalize padded / n = chunk at hchunk ⊢
  refine bind_reducedBlocks hn hready hcount hchunk hinputs
    (fun hfits hsupported hsmall reduced full part hblocks hfull htake after hafter hsized hread =>
      ?_)
    fun stop after hcause hafter hsized => .of_output_eq hcause hsized hafter
  have hstale (me : Fin n) : ((after me).arena.messages.read full).length = reduced.length :=
    (Pool.length_read _ _).trans hfull
  have hallgather := @together_allgather n
    (fun me => reduced.slice (me * (chunk * dtype.size)) (chunk * dtype.size))
    (fun me => (after me).arena.messages.read full) chunk dtype
    (fun me => (Bytes.length_block hblocks.ge me).ge)
    fun me => (hblocks.symm.trans (hstale me).symm).le
  simp only [Bytes.concat_blocks hblocks,
    fun me => Bytes.overwrite_zero_of_length (hstale me).symm] at hallgather
  refine .bind_readScratch ?_
  simp only [hread]
  refine .bind (.issue_scratch hallgather.serves (fun _ => rfl) (fun _ => ?_)
    fun hrefused => .of_output_eq (fun _ => ⟨position + 1, by omega, hrefused trivial⟩) hsized
      hafter)
  refine .bind_readScratch (.writeOutput ⟨⟨hfits, hsupported, hsmall⟩, fun me => ?_, fun me => ?_⟩)
  · simpa using hsized me
  · rw [Workspace.read_fill _ hfull.symm, htake, ← hafter me]
    rfl

/-- Reducing and scattering equal blocks and gathering them at the root realizes a reduce. -/
theorem realizes_reduceAsReduceScatterBlockGather (root : Fin n)
    (hinputs : ∀ me, count * dtype.size ≤ (inputs me).length)
    (houtput : count * dtype.size ≤ (before root).output.length) :
    Realizes arithmetic refusals (Arena.Ready messages integers)
      (Layout.paddedCount count n * dtype.size +
          Layout.paddedCount count n / n * dtype.size ≤ messages ∧
        Supported dtype op ∧ Layout.paddedCount count n / n < UInt32.size)
      (fun me => (before me).output)
      (fun me => if me = root then combined arithmetic dtype op count inputs (List.finRange n)
        else []) (fun _ => 0) position
      (fun me => reduceAsReduceScatterBlockGather ⟨me, n⟩ (inputs me) count dtype op root)
      before := by
  have hinput (me : Fin n) : 0 + count * dtype.size ≤ (inputs me).length := by
    simpa using hinputs me
  refine .bind_lift (fun me => Bytes.span_eq_slice (hinput me))
    (.of_checkOutput (fun me hme => ?_) (Realizes.withLease ?_))
  · rw [Fin.ext hme, Nat.zero_add]
    exact houtput
  dsimp only
  have hcount := Layout.le_paddedCount count n
  have hchunk := Layout.mul_div_paddedCount hn count
  generalize Layout.paddedCount count n = padded at hcount hchunk ⊢
  generalize padded / n = chunk at hchunk ⊢
  refine bind_reducedBlocks hn hready hcount hchunk hinputs
    (fun hfits hsupported hsmall reduced full part hblocks hfull htake after hafter hsized hread =>
      ?_)
    fun stop after hcause hafter hsized => .of_output_eq hcause hsized hafter
  have hstale (me : Fin n) : ((after me).arena.messages.read full).length = reduced.length :=
    (Pool.length_read _ _).trans hfull
  have hgather := @together_gather n
    (fun me => reduced.slice (me * (chunk * dtype.size)) (chunk * dtype.size))
    (fun me => (after me).arena.messages.read full) chunk dtype root
    (fun me => (Bytes.length_block hblocks.ge me).ge) (hblocks.symm.trans (hstale root).symm).le
  simp only [Bytes.concat_blocks hblocks,
    fun me => Bytes.overwrite_zero_of_length (hstale me).symm] at hgather
  refine .bind_readScratch ?_
  simp only [hread]
  refine .bind (.issue_scratch hgather.serves (fun _ => rfl) (fun _ => ?_)
    fun hrefused => .of_output_eq (fun _ => ⟨position + 1, by omega, hrefused trivial⟩) hsized
      hafter)
  -- The root takes the elements from its first region.
  let gathered (me : Fin n) : Workspace := (after me).fill full
    (if me = root then reduced else (after me).arena.messages.read full)
  refine .of_branch
    (fun me => (gathered me).emit 0 (combined arithmetic dtype op count inputs (List.finRange n)))
    (fun me hme => ?_) fun emitted hroot hothers => .pure ?_
  · have hfirst : (gathered me).arena.messages.read full = reduced := by
      rw [Workspace.read_fill, if_pos (Fin.ext hme)]
      rw [if_pos (Fin.ext hme), hfull]
    change (writeOutput 0 (((gathered me).arena.messages.read full).take
      (count * dtype.size))).run.run (gathered me) = _
    rw [hfirst, htake]
    rfl
  · refine ⟨⟨hfits, hsupported, hsmall⟩, fun me => ?_, fun me => ?_⟩
    · by_cases hme : (me : Nat) = root
      · rw [hroot me hme]
        simpa [gathered] using hsized me
      · rw [hothers me hme]
        simpa using hsized me
    · by_cases hme : (me : Nat) = root
      · rw [hroot me hme, if_pos (Fin.ext hme), ← hafter me]
        rfl
      · have hne : me ≠ root := Fin.ne_of_val_ne hme
        rw [hothers me hme, if_neg hne, if_neg hne, Bytes.overwrite_nil]
        exact hafter me

/-! ### Round-robin shares -/

section Shares

variable {counts : List Nat} (hlength : counts.length = n)
  (hall : Layout.displacement counts n = count)
  (hinputs : ∀ me, count * dtype.size ≤ (inputs me).length)

include hlength hall hinputs

omit hready hlength in
/-- The whole combination is as long as the shares together. -/
theorem length_combined_shares :
    (combined arithmetic dtype op count inputs (List.finRange n)).length =
      Layout.displacement counts n * dtype.size := by
  rw [length_combined_all hn hinputs, hall]

omit hready in
/-- A rank's share of the combination is as long as its count says. -/
theorem length_share (me : Fin n) :
    (share arithmetic dtype op count inputs counts me).length =
      counts[(me : Nat)]?.getD 0 * dtype.size :=
  Bytes.length_slice <| ((Layout.tiles_displacement hlength.ge dtype.size).stop_le me).trans
    (length_combined_shares hn hall hinputs).ge

omit hready in
/-- The shares of all ranks put together. -/
theorem concat_share : concat (share arithmetic dtype op count inputs counts) =
    combined arithmetic dtype op count inputs (List.finRange n) := by
  have hconcat := (Layout.tiles_displacement hlength.ge dtype.size).concat_slice
    (combined arithmetic dtype op count inputs (List.finRange n))
  rwa [← @length_combined_shares n arithmetic inputs count dtype op hn counts hall hinputs,
    List.take_length] at hconcat

omit hready in
/-- A reduce-scatter into blocks that are as long as the shares. -/
theorem serves_reduceScatter_shares {outputs : Fin n → Bytes}
    (houtputs : ∀ me : Fin n, (outputs me).length = counts[(me : Nat)]?.getD 0 * dtype.size) :
    Serves (fun me => reduceScatter arithmetic me (inputs me) counts dtype op) (Supported dtype op)
      outputs (share arithmetic dtype op count inputs counts) := by
  have hinput (me : Fin n) : Layout.displacement counts n * dtype.size ≤ (inputs me).length := by
    rw [hall]
    exact hinputs me
  have hserves := @serves_reduceScatter n inputs outputs dtype op arithmetic counts hlength.ge
    hinput fun me => (houtputs me).ge
  have hshare (me : Fin n) := (@length_share n arithmetic inputs count dtype op hn counts hlength
    hall hinputs me).trans (houtputs me).symm
  have hresult (me : Fin n) := Bytes.overwrite_zero_of_length (hshare me)
  unfold share at hresult
  simp only [hall, entry, hresult] at hserves
  exact hserves

end Shares

omit hn in
/-- Scratch space for a layout and the round-robin shares, which all ranks get or none does. -/
theorem bind_grabShares (chunk : Nat) {use : Fin n → Region × Region → List Nat → Attempt Unit}
    {succeeds : Nat → (Fin n → Unit) → (Fin n → Workspace) → Prop}
    {fails : Nat → (Fin n → Workspace) → Prop}
    (hgranted : 2 * n ≤ integers → count < UInt32.size → ∀ after : Fin n → Workspace,
      (∀ me, (before me).UpToLayout (after me)) →
      Conducts arithmetic refusals position
        (fun me => use me (⟨.first, 0, n⟩, ⟨.second, n, n⟩) (Layout.shares n count chunk)) after
        succeeds fails)
    (hrefused : ¬ (2 * n ≤ integers ∧ count < UInt32.size) → ∀ after : Fin n → Workspace,
      (∀ me, (before me).UpToLayout (after me)) → fails position after) :
    Conducts arithmetic refusals position
      (fun me : Fin n => grabLayout ⟨me, n⟩ >>= fun regions =>
        liftM (Layout.roundRobinCounts n count chunk) >>= use me regions) before succeeds
      fails := by
  by_cases hcause : 2 * n ≤ integers ∧ count < UInt32.size
  · choose after hafter hcourse using fun me =>
      @run_grabShares _ (before me) _ _ ⟨me, n⟩ rfl (hready me).2 _ hcause.1 hcause.2 chunk (use me)
    exact (hgranted hcause.1 hcause.2 after hafter).of_course hcourse
  · choose errors after hafter hcourse using fun me =>
      @run_grabShares_error _ (before me) _ _ ⟨me, n⟩ rfl (hready me).2 _ hcause chunk (use me)
    exact .error (fun me => ⟨errors me, hcourse me⟩) (hrefused hcause after hafter)

/-- Reducing and scattering shares of whole chunks and gathering them everywhere realizes an
allreduce. -/
theorem realizes_allreduceAsReduceScatterAllgatherv (chunk : Nat)
    (hinputs : ∀ me, count * dtype.size ≤ (inputs me).length)
    (houtputs : ∀ me, count * dtype.size ≤ (before me).output.length) :
    Realizes arithmetic refusals (Arena.Ready messages integers)
      (2 * n ≤ integers ∧ count < UInt32.size ∧ Supported dtype op)
      (fun me => (before me).output)
      (fun _ => combined arithmetic dtype op count inputs (List.finRange n))
      (fun _ => count * dtype.size) position
      (fun me => allreduceAsReduceScatterAllgatherv ⟨me, n⟩ (inputs me) count dtype op chunk)
      before := by
  refine .withLease ?_
  dsimp only
  refine bind_grabShares hready chunk (fun hroom hsmall after hafter => ?_)
    fun hcause after hafter => .of_output_eq (fun h => absurd ⟨h.1, h.2.1⟩ hcause)
      (fun me => (hafter me).sized (hready me).sized) fun me => (hafter me).output
  refine .bind_storeIntegers fun stored hstored =>
    .bind_storeIntegers fun stored' hstored' => ?_
  have hkept (me : Fin n) := (hafter me).trans ((hstored me).trans (hstored' me))
  have hlength := Layout.length_shares n count chunk
  have hall := Layout.displacement_shares_all hn count chunk
  generalize Layout.shares n count chunk = counts at hlength hall ⊢
  have hdispl (me : Fin n) : (Layout.displacements counts)[(me : Nat)]?.getD 0 =
      Layout.displacement counts me :=
    Layout.getD_displacements (hlength ▸ me.isLt)
  have hdispls : (Layout.displacements counts).length = n := by
    simp [Layout.displacements, hlength]
  have htiles := Layout.tiles_displacement hlength.ge dtype.size
  have htotal : Layout.displacement counts n * dtype.size = count * dtype.size := by rw [hall]
  simp only [hdispl]
  have hblock (me : Fin n) : Layout.displacement counts me * dtype.size +
      counts[(me : Nat)]?.getD 0 * dtype.size ≤ (stored' me).output.length := by
    rw [(hkept me).output]
    exact (htiles.stop_le me).trans (htotal.trans_le (houtputs me))
  have hreduced := @length_combined_all n arithmetic inputs count dtype op hn hinputs
  let own : Fin n → Bytes := share arithmetic dtype op count inputs counts
  have hown (me : Fin n) : (own me).length = counts[(me : Nat)]?.getD 0 * dtype.size :=
    length_share hn hlength hall hinputs me
  have hscatter := @serves_reduceScatter_shares n arithmetic inputs count dtype op hn counts
    hlength hall hinputs _ fun me => Bytes.length_slice (hblock me)
  refine .bind_checkOutput hblock (.bind (.issue_block hscatter (fun hsupported => ?_)
    fun hrefused => .of_output_eq (fun h => ⟨position, by omega, hrefused h.2.2⟩)
      (fun me => (hkept me).sized (hready me).sized) fun me => (hkept me).output))
  -- Every rank now has its own share in place.
  let placed (me : Fin n) : Bytes :=
    (stored' me).output.overwrite (Layout.displacement counts me * dtype.size) (own me)
  have hfits (me : Fin n) : Layout.displacement counts me * dtype.size + (own me).length ≤
      (stored' me).output.length := by
    rw [hown]
    exact hblock me
  have hspread := @together_allgathervInPlace_of_tiles n placed dtype counts
    (Layout.displacements counts) _ _ htiles hlength.ge hdispls.ge (fun _ => rfl)
    (fun me => congrArg (· * dtype.size) (hdispl me)) fun me => by
      rw [Bytes.length_overwrite (hfits me), htotal, (hkept me).output]
      exact houtputs me
  have hplaced (me : Fin n) : (placed me).slice (Layout.displacement counts me * dtype.size)
      (counts[(me : Nat)]?.getD 0 * dtype.size) = own me := by
    rw [← hown me]
    exact Bytes.slice_overwrite ((Nat.le_add_right _ _).trans (hfits me))
  simp only [hplaced, own, concat_share hn hlength hall hinputs] at hspread
  have hend (me : Fin n) : Layout.displacement counts me * dtype.size + (own me).length ≤
      count * dtype.size := by
    rw [hown]
    exact (htiles.stop_le me).trans htotal.le
  refine Realizes.last_whole hspread.serves (iff_true_intro ⟨hroom, hsmall, hsupported⟩)
    (fun me => by simpa using (hkept me).sized (hready me).sized) (fun me => ?_)
    (fun me => hreduced.trans_le (houtputs me)) fun me => ?_
  · rw [← (hkept me).output]
    exact .overwrite (hend me) (hfits me)
  · rw [← (hkept me).output]
    exact Bytes.overwrite_zero_overwrite ((Nat.le_add_right _ _).trans (hfits me))
      ((hend me).trans hreduced.ge)

/-- Reducing and scattering shares of whole chunks and gathering them at the root realizes a
reduce. -/
theorem realizes_reduceAsReduceScatterGatherv (root : Fin n) (chunk : Nat)
    (hinputs : ∀ me, count * dtype.size ≤ (inputs me).length)
    (houtput : count * dtype.size ≤ (before root).output.length) :
    Realizes arithmetic refusals (Arena.Ready messages integers)
      (2 * n ≤ integers ∧ count < UInt32.size ∧
        (Layout.shares n count chunk).foldl max 0 * dtype.size ≤ messages ∧ Supported dtype op)
      (fun me => (before me).output)
      (fun me => if me = root then combined arithmetic dtype op count inputs (List.finRange n)
        else []) (fun _ => 0) position
      (fun me => reduceAsReduceScatterGatherv ⟨me, n⟩ (inputs me) count dtype op root chunk)
      before := by
  refine .withLease ?_
  dsimp only
  refine bind_grabShares hready chunk (fun hroom hsmall after hafter => ?_)
    fun hcause after hafter => .of_output_eq (fun h => absurd ⟨h.1, h.2.1⟩ hcause)
      (fun me => (hafter me).sized (hready me).sized) fun me => (hafter me).output
  refine .bind_storeIntegers fun stored hstored => ?_
  have hkept (me : Fin n) := (hafter me).trans (hstored me)
  have hlength := Layout.length_shares n count chunk
  have hall := Layout.displacement_shares_all hn count chunk
  generalize Layout.shares n count chunk = counts at hlength hall ⊢
  refine .bind_grabMessages_first (fun me => by rw [(hkept me).messages]; exact (hready me).1)
    (fun hfits => ?_) fun hlarge =>
      .of_output_eq (fun h => absurd h.2.2.1 (Nat.not_le.mpr hlarge))
        (fun me => (hkept me).sized (hready me).sized) fun me => (hkept me).output
  let held (me : Fin n) : Workspace :=
    (stored me).holdMessages .first (counts.foldl max 0 * dtype.size)
  let region (me : Fin n) : Region := ⟨.first, 0, counts[(me : Nat)]?.getD 0 * dtype.size⟩
  have hreduced := @length_combined_all n arithmetic inputs count dtype op hn hinputs
  let own : Fin n → Bytes := share arithmetic dtype op count inputs counts
  have hown (me : Fin n) : (own me).length = counts[(me : Nat)]?.getD 0 * dtype.size :=
    length_share hn hlength hall hinputs me
  have htiles := Layout.tiles_displacement hlength.ge dtype.size
  have htotal : Layout.displacement counts n * dtype.size = count * dtype.size := by rw [hall]
  have hscatter := @serves_reduceScatter_shares n arithmetic inputs count dtype op hn counts
    hlength hall hinputs (fun me => (held me).arena.messages.read (region me))
    fun me => Pool.length_read _ _
  have hsized (me : Fin n) : (held me).arena.Sized messages integers := by
    simpa [held] using (hkept me).sized (hready me).sized
  refine .bind (.issue_scratch hscatter (fun _ => rfl) (fun hsupported => ?_)
    fun hrefused => .of_output_eq (fun h => ⟨position, by omega, hrefused h.2.2.2⟩) hsized
      fun me => (hkept me).output)
  refine .bind_storeIntegers fun stored' hstored' => .bind_readScratch ?_
  have hread (me : Fin n) : (stored' me).arena.messages.read (region me) = own me := by
    rw [(hstored' me).messages]
    exact Workspace.read_fill _ (hown me)
  have houtput' (me : Fin n) : (stored' me).output = (before me).output :=
    (hstored' me).output.trans (hkept me).output
  have hgather := @together_gatherv_of_tiles n own (fun me => (stored' me).output) dtype counts
    (Layout.displacements counts) _ _ root htiles hlength.ge
    (by simp [Layout.displacements, hlength]) (fun _ => rfl)
    (fun me => congrArg (· * dtype.size) (Layout.getD_displacements (hlength ▸ me.isLt)))
    (fun me => (hown me).ge) (by rw [htotal, houtput']; exact houtput)
  simp only [← hown, Bytes.slice_self] at hgather
  rw [concat_share hn hlength hall hinputs] at hgather
  change Realizes _ _ _ _ _ _ _ _ (fun me => wholeOutput >>=
    issue _ ((stored' me).arena.messages.read (region me))) _
  simp only [hread]
  refine Realizes.last_whole hgather.serves (iff_true_intro ⟨hroom, hsmall, hfits, hsupported⟩)
    (fun me => ?_) (fun me => .of_eq (houtput' me)) (fun me => ?_) fun me => ?_
  · exact (hstored' me).sized ((Workspace.sized_fill _ _ _).mpr (hsized me))
  · exact length_at_root_le (fun me => (before me).output) (hreduced.trans_le houtput) me
  · rw [houtput', Bytes.overwrite_ite]

/-! ### Whole vectors in scratch space -/

/-- An allreduce whose result is dropped outside the root realizes a reduce. -/
theorem realizes_reduceAsAllreduce (root : Fin n)
    (hinputs : ∀ me, count * dtype.size ≤ (inputs me).length)
    (houtput : count * dtype.size ≤ (before root).output.length) :
    Realizes arithmetic refusals (Arena.Ready messages integers)
      (count * dtype.size ≤ messages ∧ Supported dtype op) (fun me => (before me).output)
      (fun me => if me = root then combined arithmetic dtype op count inputs (List.finRange n)
        else []) (fun _ => 0) position
      (fun me => reduceAsAllreduce ⟨me, n⟩ (inputs me) count dtype op root) before := by
  simp only [reduceAsAllreduce, Fin.val_inj]
  refine realizes_of_whole_at_root hready root (.allreduce count dtype op) (fun me region => ?_)
    (fun outputs houtputs => serves_allreduce hn hinputs houtputs) Iff.rfl
    (length_combined_all hn hinputs) houtput
  split <;> rfl

/-- A reduce-scatter with equal counts realizes one of equal blocks. -/
theorem realizes_reduceScatterBlockAsReduceScatter
    (hinputs : ∀ me, n * count * dtype.size ≤ (inputs me).length)
    (houtputs : ∀ me, count * dtype.size ≤ (before me).output.length) :
    Realizes arithmetic refusals (Arena.Ready messages integers)
      (n * count * dtype.size ≤ messages ∧ Supported dtype op) (fun me => (before me).output)
      (fun me => (combined arithmetic dtype op (n * count) inputs (List.finRange n)).slice
        (me * (count * dtype.size)) (count * dtype.size)) (fun _ => 0) position
      (fun me => reduceScatterBlockAsReduceScatter ⟨me, n⟩ (inputs me) count dtype op) before := by
  let root : Fin n := ⟨0, hn⟩
  have hreduced := @length_combined_all n arithmetic inputs (n * count) dtype op hn hinputs
  have htotal : n * (count * dtype.size) = n * count * dtype.size := (Nat.mul_assoc _ _ _).symm
  refine .withLease ?_
  dsimp only
  refine .bind_grabMessages_first (fun me => (hready me).1) (fun hfits => ?_) fun hlarge => ?_
  · let region : Region := ⟨.first, 0, n * count * dtype.size⟩
    let held (me : Fin n) : Workspace := (before me).holdMessages .first (n * count * dtype.size)
    have hsized (me : Fin n) : (held me).arena.Sized messages integers := by
      simpa [held] using (hready me).sized
    have hstale (me : Fin n) :
        ((held me).arena.messages.read region).length = n * count * dtype.size :=
      Pool.length_read _ _
    have hreduce := @serves_reduce n inputs (fun me => (held me).arena.messages.read region)
      (n * count) dtype op arithmetic root hinputs (hstale root).ge
    simp only [fun me => Bytes.overwrite_zero_of_length (hreduced.trans (hstale me).symm)]
      at hreduce
    refine .bind (.issue_scratch hreduce (fun _ => rfl) (fun hsupported => ?_)
      fun hrefused => .of_output_eq (fun h => ⟨position, by omega, hrefused h.2⟩) hsized
        fun _ => rfl)
    refine .bind_readScratch ?_
    have hread : (((held root).fill region (if root = root then
        combined arithmetic dtype op (n * count) inputs (List.finRange n) else
          (held root).arena.messages.read region)).arena.messages.read region) =
        combined arithmetic dtype op (n * count) inputs (List.finRange n) := by
      rw [if_pos rfl]
      exact Workspace.read_fill _ hreduced
    have hscatter := @together_scatter n (fun me => ((held me).fill region (if me = root then
        combined arithmetic dtype op (n * count) inputs (List.finRange n) else
          (held me).arena.messages.read region)).arena.messages.read region)
      (fun me => (before me).output) count dtype root
      (by rw [hread, hreduced, htotal]) houtputs
    rw [hread] at hscatter
    exact Realizes.last_whole hscatter.serves (iff_true_intro ⟨hfits, hsupported⟩)
      (fun me => (Workspace.sized_fill _ _ _).mpr (hsized me)) (fun _ => .of_eq rfl)
      (fun me => (Bytes.length_block (htotal.trans hreduced.symm).le me).trans_le (houtputs me))
      fun _ => rfl
  · exact .of_output_eq (fun h => absurd h.1 (Nat.not_le.mpr hlarge)) (fun me => (hready me).sized)
      fun _ => rfl

end Requests

/-! ### Scan by an exclusive scan -/

/-- The ranks up to a rank are those below it and then the rank itself. -/
theorem ranks_le_eq (me : Fin n) :
    (List.finRange n).filter (· ≤ me) = (List.finRange n).filter (· < me) ++ [me] := by
  have hsorted := (List.sortedLT_finRange n).pairwise
  refine List.Pairwise.eq_of_mem_iff (r := (· < ·)) (hsorted.filter _) ?_ fun rank => ?_
  · refine List.pairwise_append.mpr
      ⟨hsorted.filter _, List.pairwise_singleton _ _, fun rank hrank => ?_⟩
    simpa using hrank
  · simp [le_iff_lt_or_eq]

/-- The combination up to rank 0 is what rank 0 contributes. -/
theorem combined_first {me : Fin n} (hme : (me : Nat) = 0) :
    combined arithmetic dtype op count inputs ((List.finRange n).filter (· ≤ me)) =
      (inputs me).slice 0 (count * dtype.size) := by
  have hbelow : (List.finRange n).filter (· < me) = [] := by
    refine List.filter_eq_nil_iff.mpr fun rank _ => ?_
    simp [Fin.lt_def, hme]
  rw [ranks_le_eq, hbelow]
  rfl

/-- There are ranks below a later rank. -/
theorem ranks_lt_ne_nil {me : Fin n} (hme : (me : Nat) ≠ 0) :
    (List.finRange n).filter (· < me) ≠ [] :=
  List.ne_nil_of_mem (a := ⟨0, me.pos⟩) <|
    List.mem_filter.mpr ⟨List.mem_finRange _, decide_eq_true (Nat.pos_of_ne_zero hme)⟩

/-- The combination up to a later rank is that of the ranks below it, with its own elements
combined in. -/
theorem combined_later {me : Fin n} (hme : (me : Nat) ≠ 0) :
    combined arithmetic dtype op count inputs ((List.finRange n).filter (· ≤ me)) =
      merge arithmetic dtype op count
        (combined arithmetic dtype op count inputs ((List.finRange n).filter (· < me)))
        ((inputs me).slice 0 (count * dtype.size)) := by
  have hbelow : ((List.finRange n).filter (· < me)).map
      (fun source => (inputs source).slice 0 (count * dtype.size)) ≠ [] := by
    simpa only [ne_eq, List.map_eq_nil_iff] using ranks_lt_ne_nil hme
  rw [combined, ranks_le_eq, List.map_append, List.map_singleton,
    mergeAll_append_singleton _ hbelow]
  rfl

/-- Elements combined into those at the start of a buffer. -/
theorem merge_overwrite {elements output : Bytes} (helements : elements.length = count * dtype.size)
    (source : Bytes) :
    merge arithmetic dtype op count (output.overwrite 0 elements) source =
      output.overwrite 0
        (merge arithmetic dtype op count elements (source.slice 0 (count * dtype.size))) := by
  rw [merge_eq_append, Bytes.overwrite_zero, Bytes.overwrite_zero, length_merge _ helements.ge,
    ← helements, List.take_left, List.drop_left, Bytes.slice_start]

/-- An exscan to which each rank adds its own vector realizes a scan. -/
theorem realizes_scanAsExscanReduceLocal {kept : Arena → Prop}
    (hkept : ∀ me, kept (before me).arena)
    (hinputs : ∀ me, count * dtype.size ≤ (inputs me).length)
    (houtputs : ∀ me, count * dtype.size ≤ (before me).output.length) :
    Realizes arithmetic refusals kept (Supported dtype op) (fun me => (before me).output)
      (fun me => combined arithmetic dtype op count inputs ((List.finRange n).filter (· ≤ me)))
      (fun _ => 0) position
      (fun me => scanAsExscanReduceLocal arithmetic ⟨me, n⟩ (inputs me) count dtype op) before := by
  have hinput (me : Fin n) : 0 + count * dtype.size ≤ (inputs me).length := by
    simpa using hinputs me
  have houtput (me : Fin n) : 0 + count * dtype.size ≤ (before me).output.length := by
    simpa using houtputs me
  let below (me : Fin n) : Bytes :=
    combined arithmetic dtype op count inputs ((List.finRange n).filter (· < me))
  have hbelow (me : Fin n) : 0 + (below me).length ≤ (before me).output.length := by
    rw [Nat.zero_add]
    exact (length_combined_le hinputs _).trans (houtputs me)
  have hexscan := @serves_exscan n inputs (fun me => (before me).output) count dtype op arithmetic
    hinputs houtputs
  refine .bind_lift (fun me => Bytes.span_eq_slice (hinput me)) (.bind_checkOutput houtput
    (.bind_wholeOutput (.bind (.issue_whole hexscan (fun me => Bytes.length_overwrite (hbelow me))
      (fun hsupported => ?_)
      fun hrefused =>
        .of_output_eq (fun h => ⟨position, by omega, hrefused h⟩) hkept fun _ => rfl))))
  let upTo (me : Fin n) : Bytes :=
    combined arithmetic dtype op count inputs ((List.finRange n).filter (· ≤ me))
  have hcompletes : Realizes arithmetic refusals kept (Supported dtype op)
      (fun me => (before me).output) upTo (fun _ => 0) (position + 1) (fun _ => pure ())
      (fun me => { before me with output := (before me).output.overwrite 0 (upTo me) }) :=
    .pure ⟨hsupported, hkept, fun _ => rfl⟩
  refine hcompletes.of_course fun me => ?_
  split
  · next hme =>
    change (Program.done (.ok (), { before me with
      output := ((before me).output.overwrite 0 (below me)).overwrite 0 _ }) :
        Script (Except Error Unit × Workspace)) = _
    rw [Bytes.overwrite_zero_overwrite (Nat.zero_le _), ← combined_first hme]
    · rfl
    · rw [Nat.zero_add, Bytes.length_slice (hinput me)]
      exact length_combined_le hinputs _
  · next hme =>
    let scanned := (before me).output.overwrite 0 (below me)
    have hlength : scanned.length = (before me).output.length := Bytes.length_overwrite (hbelow me)
    have hfolded : merge arithmetic dtype op count scanned (inputs me) =
        (before me).output.overwrite 0 (upTo me) := by
      rw [merge_overwrite (length_combined hinputs (ranks_lt_ne_nil hme)), ← combined_later hme]
    change (liftM (accumulate arithmetic dtype op count scanned (inputs me)) >>=
      writeOutput 0 : Attempt Unit).run.run { before me with output := scanned } = _
    rw [accumulate_eq_ok hsupported (by rw [hlength]; exact houtputs me) (hinputs me), hfolded]
    change (Program.done (.ok (), { before me with output := scanned.overwrite 0 _ }) :
      Script (Except Error Unit × Workspace)) = _
    rw [Bytes.overwrite_zero_of_length]
    · rfl
    · rw [hlength, Bytes.length_overwrite]
      rw [Nat.zero_add]
      exact (length_combined_le hinputs _).trans (houtputs me)

end CollectiveTuner.Decomposition
