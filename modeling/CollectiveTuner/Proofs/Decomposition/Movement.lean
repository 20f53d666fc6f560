import CollectiveTuner.Decomposition.Movement
import CollectiveTuner.Proofs.Communicator.Combining
import CollectiveTuner.Proofs.Decomposition.Conduct

/-!
# What the decompositions that move data leave

Each decomposition of allgather, alltoall, bcast, gather and scatter puts at the start of the
outputs what the native operation does. Each theorem also says when the decomposition is
possible: when scratch space is large enough and the numbers of its layout fit in a header.
-/

namespace CollectiveTuner.Decomposition

open Attempt Native Scratch
open Bytes (concat place)

variable {n : Nat} {α : Type} {arithmetic : FloatArithmetic} {refusals : Refusals n}
  {messages integers position : Nat} {before : Fin n → Workspace} {inputs : Fin n → Bytes}
  {count : Nat} {dtype : Datatype}

/-- The layout of equal blocks, which all ranks get or none does. -/
theorem bind_uniformLayout (hn : 0 < n) {use : Fin n → List Nat × List Nat → Attempt α}
    {succeeds : Nat → (Fin n → α) → (Fin n → Workspace) → Prop}
    {fails : Nat → (Fin n → Workspace) → Prop}
    (hready : ∀ me, (before me).arena.Ready messages integers)
    (hgranted : 2 * n ≤ integers ∧ Layout.UniformFits n count → ∀ after : Fin n → Workspace,
      (∀ me, (before me).UpToLayout (after me)) →
      Conducts arithmetic refusals position (fun me => use me
        (Layout.equalCounts n count, Layout.equalDispls n count)) after succeeds fails)
    (hrefused : ¬ (2 * n ≤ integers ∧ Layout.UniformFits n count) → ∀ after : Fin n → Workspace,
      (∀ me, (before me).UpToLayout (after me)) → fails position after) :
    Conducts arithmetic refusals position (fun me => uniformLayout ⟨me, n⟩ count >>= use me) before
      succeeds fails := by
  by_cases hcause : 2 * n ≤ integers ∧ Layout.UniformFits n count
  · choose after hafter hcourse using fun me =>
      @run_uniformLayout _ (before me) _ _ ⟨me, n⟩ rfl (hready me).2 _ hcause.1 hcause.2 (use me)
    exact (hgranted hcause after hafter).of_course hcourse
  · choose errors after hafter hcourse using fun me =>
      @run_uniformLayout_error _ (before me) _ _ ⟨me, n⟩ rfl (hready me).2 _ hn hcause (use me)
    exact .error (fun me => ⟨errors me, hcourse me⟩) (hrefused hcause after hafter)

/-- Contents for the root only fit into the buffers of all ranks. -/
theorem length_at_root_le {root : Fin n} {contents : Bytes} (buffers : Fin n → Bytes)
    (hroot : contents.length ≤ (buffers root).length) (me : Fin n) :
    (if me = root then contents else []).length ≤ (buffers me).length := by
  split
  · next hme =>
    subst hme
    exact hroot
  · exact Nat.zero_le _

section Requests

variable (hn : 0 < n) (hready : ∀ me, (before me).arena.Ready messages integers)

include hn hready

/-- A single call on the whole of the outputs with a layout of equal blocks. -/
theorem realizes_of_equal_layout {attempts : Fin n → List Nat × List Nat → Attempt Unit}
    {primitive : Primitive} {contents : Fin n → Bytes}
    (hattempts : ∀ me, attempts me (Layout.equalCounts n count, Layout.equalDispls n count) =
      wholeOutput >>= issue primitive (inputs me))
    (htogether : Together (fun me => exchange arithmetic me (inputs me) primitive)
      (fun me => (before me).output) (fun _ => .ok ())
      fun me => (before me).output.overwrite 0 (contents me))
    (hlength : ∀ me, (contents me).length ≤ (before me).output.length) :
    Realizes arithmetic refusals (Arena.Ready messages integers)
      (2 * n ≤ integers ∧ Layout.UniformFits n count) (fun me => (before me).output) contents
      (fun _ => 0) position
      (fun me => withLease (uniformLayout ⟨me, n⟩ count >>= attempts me)) before := by
  refine .withLease (bind_uniformLayout hn hready (fun hpossible after hafter => ?_)
    fun himpossible after hafter => ?_)
  · have houtput : (fun me => (after me).output) = fun me => (before me).output :=
      funext fun me => (hafter me).output
    simp only [hattempts]
    rw [← houtput] at htogether
    exact Realizes.last_whole htogether.serves (iff_true_intro hpossible)
      (fun me => (hafter me).sized (hready me).sized) (fun me => .of_eq (hafter me).output) hlength
      fun _ => rfl
  · exact .of_output_eq (fun h => absurd h himpossible)
      (fun me => (hafter me).sized (hready me).sized) fun me => (hafter me).output

/-- An allgather is realized by an allgather with a layout of equal blocks. -/
theorem realizes_allgatherAsAllgatherv (hinputs : ∀ me, count * dtype.size ≤ (inputs me).length)
    (houtputs : ∀ me, n * (count * dtype.size) ≤ (before me).output.length) :
    Realizes arithmetic refusals (Arena.Ready messages integers)
      (2 * n ≤ integers ∧ Layout.UniformFits n count) (fun me => (before me).output)
      (fun _ => concat fun source => (inputs source).slice 0 (count * dtype.size)) (fun _ => 0)
      position (fun me => allgatherAsAllgatherv ⟨me, n⟩ (inputs me) count dtype) before :=
  realizes_of_equal_layout hn hready (fun _ => rfl) (together_allgatherv_equal hinputs houtputs)
    fun me => (Bytes.length_concat_slice_zero hinputs).trans_le (houtputs me)

/-- An exchange between all ranks is realized by one with layouts of equal blocks. -/
theorem realizes_alltoallAsAlltoallv
    (hinputs : ∀ me, n * (count * dtype.size) ≤ (inputs me).length)
    (houtputs : ∀ me, n * (count * dtype.size) ≤ (before me).output.length) :
    Realizes arithmetic refusals (Arena.Ready messages integers)
      (2 * n ≤ integers ∧ Layout.UniformFits n count) (fun me => (before me).output)
      (fun me => concat fun source =>
        (inputs source).slice (me * (count * dtype.size)) (count * dtype.size)) (fun _ => 0)
      position (fun me => alltoallAsAlltoallv ⟨me, n⟩ (inputs me) count dtype) before :=
  realizes_of_equal_layout hn hready (fun _ => rfl) (together_alltoallv_equal hinputs houtputs)
    fun me => (Bytes.length_concat_slice _ fun source =>
      ((Bytes.tiles_uniform n _).stop_le me).trans (hinputs source)).trans_le (houtputs me)

/-- A gather is realized by a gather with a layout of equal blocks. -/
theorem realizes_gatherAsGatherv (root : Fin n)
    (hinputs : ∀ me, count * dtype.size ≤ (inputs me).length)
    (houtput : n * (count * dtype.size) ≤ (before root).output.length) :
    Realizes arithmetic refusals (Arena.Ready messages integers)
      (2 * n ≤ integers ∧ Layout.UniformFits n count) (fun me => (before me).output)
      (fun me => if me = root then
        concat fun source => (inputs source).slice 0 (count * dtype.size) else []) (fun _ => 0)
      position (fun me => gatherAsGatherv ⟨me, n⟩ (inputs me) count dtype root) before := by
  refine realizes_of_equal_layout hn hready (fun _ => rfl) ?_ fun me => ?_
  · simp only [Bytes.overwrite_ite]
    exact together_gatherv_equal root hinputs houtput
  · exact length_at_root_le (fun me => (before me).output)
      ((Bytes.length_concat_slice_zero hinputs).trans_le houtput) me

/-- A scatter is realized by a scatter with a layout of equal blocks. -/
theorem realizes_scatterAsScatterv (root : Fin n)
    (hinput : n * (count * dtype.size) ≤ (inputs root).length)
    (houtputs : ∀ me, count * dtype.size ≤ (before me).output.length) :
    Realizes arithmetic refusals (Arena.Ready messages integers)
      (2 * n ≤ integers ∧ Layout.UniformFits n count) (fun me => (before me).output)
      (fun me => (inputs root).slice (me * (count * dtype.size)) (count * dtype.size)) (fun _ => 0)
      position (fun me => scatterAsScatterv ⟨me, n⟩ (inputs me) count dtype root) before :=
  realizes_of_equal_layout hn hready (fun _ => rfl) (together_scatterv_equal root hinput houtputs)
    fun me => (Bytes.length_block hinput me).trans_le (houtputs me)

/-! ### Blocks among zeros -/

omit hn in
/-- A region that holds this rank's block among zeros, which all ranks get or none does. -/
theorem bind_ownBlockAmongZeros {block : Nat} {use : Fin n → Region → Attempt Unit}
    {succeeds : Nat → (Fin n → Unit) → (Fin n → Workspace) → Prop}
    {fails : Nat → (Fin n → Workspace) → Prop} (hinputs : ∀ me, block ≤ (inputs me).length)
    (hgranted : n * block ≤ messages → ∀ after : Fin n → Workspace,
      (∀ me, (after me).output = (before me).output) →
      (∀ me, (after me).arena.Sized messages integers) →
      (∀ me, (after me).arena.messages.read ⟨.first, 0, n * block⟩ =
        amongZeros n block me ((inputs me).slice 0 block)) →
      Conducts arithmetic refusals position (fun me => use me ⟨.first, 0, n * block⟩) after succeeds
        fails)
    (hrefused : messages < n * block → fails position before) :
    Conducts arithmetic refusals position
      (fun me => ownBlockAmongZeros ⟨me, n⟩ (inputs me) block >>= use me) before succeeds
      fails := by
  have hinput (me : Fin n) : 0 + block ≤ (inputs me).length := by simpa using hinputs me
  have hstart : (fun me : Fin n => ownBlockAmongZeros ⟨me, n⟩ (inputs me) block >>= use me) =
      fun me : Fin n => liftM ((inputs me).span 0 block) >>= fun own =>
        grabMessages .first (n * block) >>= fun region =>
          writeScratch region (amongZeros n block me own) >>= fun _ => use me region := by
    funext me
    simp only [ownBlockAmongZeros, bind_assoc, pure_bind]
    rfl
  rw [hstart]
  exact .bind_lift (fun me => Bytes.span_eq_slice (hinput me)) <| .bind_filled hready
    (fun me => length_amongZeros (Bytes.length_slice (hinput me))) hgranted hrefused

/-- An allgather is realized by an allreduce of each rank's block among zeros. -/
theorem realizes_allgatherAsAllreduce (hinputs : ∀ me, count * dtype.size ≤ (inputs me).length)
    (houtputs : ∀ me, n * (count * dtype.size) ≤ (before me).output.length) :
    Realizes arithmetic refusals (Arena.Ready messages integers)
      (n * (count * dtype.size) ≤ messages) (fun me => (before me).output)
      (fun _ => concat fun source => (inputs source).slice 0 (count * dtype.size)) (fun _ => 0)
      position (fun me => allgatherAsAllreduce ⟨me, n⟩ (inputs me) count dtype) before := by
  have hlength (me : Fin n) :
      ((inputs me).slice 0 (count * dtype.size)).length = count * dtype.size :=
    Bytes.length_slice_zero (hinputs me)
  refine .withLease (bind_ownBlockAmongZeros hready hinputs
    (fun hfits after houtput hsized hread => ?_) fun hlarge => ?_)
  · refine .bind_readScratch ?_
    simp only [hread]
    have hserves := @serves_allreduce n
      (fun me => amongZeros n (count * dtype.size) me ((inputs me).slice 0 (count * dtype.size)))
      (fun me => (after me).output) (n * (count * dtype.size)) .uint8 .bitOr arithmetic hn
      (fun me => ((length_amongZeros (hlength me)).trans (Nat.mul_one _).symm).ge)
      fun me => (Nat.mul_one _).trans_le (houtput me ▸ houtputs me)
    rw [combined_amongZeros hlength hn] at hserves
    exact Realizes.last_whole hserves ⟨fun _ => by decide, fun _ => hfits⟩ hsized
      (fun me => .of_eq (houtput me))
      (fun me => (Bytes.length_concat_slice_zero hinputs).trans_le (houtputs me))
      fun me => by rw [houtput]
  · exact .of_output_eq (fun h => absurd h (Nat.not_le.mpr hlarge))
      (fun me => (hready me).sized) fun _ => rfl

/-- A gather is realized by a reduce of each rank's block among zeros. -/
theorem realizes_gatherAsReduce (root : Fin n)
    (hinputs : ∀ me, count * dtype.size ≤ (inputs me).length)
    (houtput : n * (count * dtype.size) ≤ (before root).output.length) :
    Realizes arithmetic refusals (Arena.Ready messages integers)
      (n * (count * dtype.size) ≤ messages) (fun me => (before me).output)
      (fun me => if me = root then
        concat fun source => (inputs source).slice 0 (count * dtype.size) else []) (fun _ => 0)
      position (fun me => gatherAsReduce ⟨me, n⟩ (inputs me) count dtype root) before := by
  have hlength (me : Fin n) :
      ((inputs me).slice 0 (count * dtype.size)).length = count * dtype.size :=
    Bytes.length_slice_zero (hinputs me)
  refine .withLease (bind_ownBlockAmongZeros hready hinputs
    (fun hfits after hkept hsized hread => ?_) fun hlarge => ?_)
  · refine .bind_readScratch ?_
    simp only [hread]
    have hserves := @serves_reduce n
      (fun me => amongZeros n (count * dtype.size) me ((inputs me).slice 0 (count * dtype.size)))
      (fun me => (after me).output) (n * (count * dtype.size)) .uint8 .bitOr arithmetic root
      (fun me => ((length_amongZeros (hlength me)).trans (Nat.mul_one _).symm).ge)
      ((Nat.mul_one _).trans_le (hkept root ▸ houtput))
    rw [combined_amongZeros hlength hn] at hserves
    exact Realizes.last_whole hserves ⟨fun _ => by decide, fun _ => hfits⟩ hsized
      (fun me => .of_eq (hkept me))
      (length_at_root_le (fun me => (before me).output)
        ((Bytes.length_concat_slice_zero hinputs).trans_le houtput))
      fun me => by rw [hkept, Bytes.overwrite_ite]
  · exact .of_output_eq (fun h => absurd h (Nat.not_le.mpr hlarge))
      (fun me => (hready me).sized) fun _ => rfl

/-! ### Identical blocks -/

omit hn in
/-- An allgather is realized by an exchange in which each rank sends its block to everyone. -/
theorem realizes_allgatherAsAlltoall (hinputs : ∀ me, count * dtype.size ≤ (inputs me).length)
    (houtputs : ∀ me, n * (count * dtype.size) ≤ (before me).output.length) :
    Realizes arithmetic refusals (Arena.Ready messages integers)
      (n * (count * dtype.size) ≤ messages) (fun me => (before me).output)
      (fun _ => concat fun source => (inputs source).slice 0 (count * dtype.size)) (fun _ => 0)
      position (fun me => allgatherAsAlltoall ⟨me, n⟩ (inputs me) count dtype) before := by
  have hinput (me : Fin n) : 0 + count * dtype.size ≤ (inputs me).length := by
    simpa using hinputs me
  have hown (me : Fin n) := Bytes.length_slice (hinput me)
  have hlength (me : Fin n) :
      (List.replicate n ((inputs me).slice 0 (count * dtype.size))).flatten.length =
        n * (count * dtype.size) := by
    rw [List.length_flatten, List.map_replicate, List.sum_replicate, hown, smul_eq_mul]
  refine .withLease (.bind_lift (fun me => Bytes.span_eq_slice (hinput me)) ?_)
  dsimp only
  refine .bind_filled hready hlength (fun hfits after hkept hsized hread => ?_) fun hlarge => ?_
  · refine .bind_readScratch ?_
    simp only [hread]
    have htogether := @together_alltoall n
      (fun me => (List.replicate n ((inputs me).slice 0 (count * dtype.size))).flatten)
      (fun me => (after me).output) count dtype (fun me => (hlength me).ge)
      fun me => hkept me ▸ houtputs me
    simp only [fun me source : Fin n => Bytes.slice_flatten_replicate (hown source) me] at htogether
    exact Realizes.last_whole htogether.serves (iff_true_intro hfits) hsized
      (fun me => .of_eq (hkept me))
      (fun me => (Bytes.length_concat_slice 0 hinput).trans_le (houtputs me))
      fun me => by rw [hkept]
  · exact .of_output_eq (fun h => absurd h (Nat.not_le.mpr hlarge))
      (fun me => (hready me).sized) fun _ => rfl

/-! ### Allgather by way of rank 0 -/

omit hready in
/-- An allgather is realized by a gather and a broadcast. -/
theorem realizes_allgatherAsGatherBcast {kept : Arena → Prop}
    (hkept : ∀ me, kept (before me).arena)
    (hinputs : ∀ me, count * dtype.size ≤ (inputs me).length)
    (houtputs : ∀ me, n * (count * dtype.size) ≤ (before me).output.length) :
    Realizes arithmetic refusals kept True (fun me => (before me).output)
      (fun _ => concat fun source => (inputs source).slice 0 (count * dtype.size))
      (fun _ => n * (count * dtype.size)) position
      (fun me => allgatherAsGatherBcast ⟨me, n⟩ (inputs me) count dtype) before := by
  let root : Fin n := ⟨0, hn⟩
  have hgathered := Bytes.length_concat_slice_zero hinputs
  have htotal : n * count * dtype.size = n * (count * dtype.size) := Nat.mul_assoc _ _ _
  have hblock (me : Fin n) : 0 + n * count * dtype.size ≤ (before me).output.length := by
    rw [htotal, Nat.zero_add]
    exact houtputs me
  have hslice (me : Fin n) := Bytes.length_slice (hblock me)
  -- What the gather leaves at the start of each output.
  let middle (me : Fin n) : Bytes :=
    if me = root then concat fun source => (inputs source).slice 0 (count * dtype.size)
    else (before me).output.slice 0 (n * count * dtype.size)
  have hmiddle (me : Fin n) : (middle me).length = n * count * dtype.size := by
    simp only [middle]
    split
    · rw [hgathered, htotal]
    · exact hslice me
  have hfits (me : Fin n) : (middle me).length ≤ (before me).output.length := by
    rw [hmiddle, htotal]
    exact houtputs me
  have hgather : Together (fun me => gather me (inputs me) count dtype 0)
      (fun me => (before me).output.slice 0 (n * count * dtype.size)) (fun _ => .ok ()) middle := by
    convert @together_gather n inputs
      (fun me => (before me).output.slice 0 (n * count * dtype.size)) count dtype root hinputs
      (by rw [hslice, htotal]) using 2 with me
    simp only [middle]
    split
    · rw [Bytes.overwrite_zero_of_length (by rw [hgathered, hslice, htotal])]
    · rfl
  have hread (me : Fin n) :
      ((before me).emit 0 (middle me)).output.slice 0 (n * count * dtype.size) = middle me := by
    rw [← hmiddle me]
    exact Bytes.slice_overwrite (Nat.zero_le _)
  have hbcast : Together (fun me => bcast me (n * count) dtype 0) middle (fun _ => .ok ())
      fun _ => concat fun source => (inputs source).slice 0 (count * dtype.size) := by
    convert @together_bcast n middle (n * count) dtype root fun me => (hmiddle me).ge
      using 2 with me
    rw [← hmiddle root, Bytes.slice_self, show middle root = _ from if_pos rfl,
      Bytes.overwrite_zero_of_length (by rw [hgathered, hmiddle, htotal])]
  refine .bind_checkOutput hblock (.bind (.issue_block hgather.serves (fun _ => ?_)
    fun hrefused => ?_))
  · rw [← funext hread] at hbcast
    refine .issue_block hbcast.serves (fun _ => ⟨trivial, hkept, fun me => ?_⟩)
      fun hrefused => ⟨fun _ => ⟨position + 1, by omega, hrefused trivial⟩, hkept, fun me => ?_⟩
    · exact Bytes.overwrite_zero_overwrite (Nat.zero_le _)
        (by rw [hmiddle, hgathered, htotal, Nat.zero_add])
    · exact .overwrite (by rw [hmiddle, htotal, Nat.zero_add]) (by simpa using hfits me)
  · exact .of_output_eq (fun _ => ⟨position, by omega, hrefused trivial⟩) hkept fun _ => rfl

/-! ### Bcast -/

omit hn in
/-- A broadcast is realized by an allgather in which only the root has elements. -/
theorem realizes_bcastAsAllgatherv (root : Fin n)
    (houtputs : ∀ me, count * dtype.size ≤ (before me).output.length) :
    Realizes arithmetic refusals (Arena.Ready messages integers)
      (2 * n ≤ integers ∧ count < UInt32.size) (fun me => (before me).output)
      (fun _ => (before root).output.slice 0 (count * dtype.size)) (fun _ => 0) position
      (fun me => bcastAsAllgatherv ⟨me, n⟩ count dtype root) before := by
  have hlength : ((before root).output.slice 0 (count * dtype.size)).length = count * dtype.size :=
    Bytes.length_slice_zero (houtputs root)
  refine .withLease (.bind_grabLayout (fun _ => rfl) (fun me => (hready me).2)
    (fun hroom after hafter => ?_) fun hsmall after hafter => ?_)
  · by_cases hfits : count < UInt32.size
    · refine .bind_lift (fun _ => toCount_eq_ok hfits) ?_
      dsimp only
      refine .bind_storeIntegers fun stored hstored =>
        .bind_storeIntegers fun stored' hstored' => ?_
      have hkept (me : Fin n) := (hafter me).trans ((hstored me).trans (hstored' me))
      have htogether := @together_allgathervInPlace_single n (fun me => (stored' me).output) count
        dtype root fun me => (hkept me).output ▸ houtputs me
      exact Realizes.last_whole htogether.serves (iff_true_intro ⟨hroom, hfits⟩)
        (fun me => (hkept me).sized (hready me).sized) (fun me => .of_eq (hkept me).output)
        (fun me => hlength.trans_le (houtputs me)) fun me => by
          rw [(hkept me).output, (hkept root).output]
    · exact .bind_lift_error (fun _ => toCount_eq_error hfits)
        (.of_output_eq (fun h => absurd h.2 hfits) (fun me => (hafter me).sized (hready me).sized)
          fun me => (hafter me).output)
  · exact .of_output_eq (fun h => absurd h.1 (by omega))
      (fun me => (hafter me).sized (hready me).sized) fun me => (hafter me).output

omit hn hready in
/-- A scatter of what the root's first region holds, and an allgather that puts the blocks together
again on every rank. -/
theorem bind_scatterAllgather {root : Fin n} {padding : Bytes} {chunk : Nat} {full part : Region}
    {next : Fin n → Attempt Unit} {succeeds : Nat → (Fin n → Unit) → (Fin n → Workspace) → Prop}
    {fails : Nat → (Fin n → Workspace) → Prop}
    (hpadding : padding.length = n * (chunk * dtype.size)) (hfull : full.length = padding.length)
    (hpart : part.length = chunk * dtype.size) (hdisjoint : full.stop ≤ part.offset)
    (hsized : ∀ me, (before me).arena.Sized messages integers)
    (hread : (before root).arena.messages.read full = padding)
    (hnext : ∀ after : Fin n → Workspace, (∀ me, (after me).output = (before me).output) →
      (∀ me, (after me).arena.Sized messages integers) →
      (∀ me, (after me).arena.messages.read full = padding) →
      Conducts arithmetic refusals (position + 1 + 1) next after succeeds fails)
    (hrefused : ∀ (stop : Nat) (after : Fin n → Workspace),
      (∃ called < stop, refusals called ≠ none) →
      (∀ me, (after me).output = (before me).output) →
      (∀ me, (after me).arena.Sized messages integers) → fails stop after) :
    Conducts arithmetic refusals position
      (fun me => readScratch full >>= fun vector =>
        issue (.scatter chunk dtype root) vector (.scratch part) >>= fun _ =>
          readScratch part >>= fun block =>
            issue (.allgather chunk dtype) block (.scratch full) >>= fun _ => next me) before
      succeeds fails := by
  have hblock (me : Fin n) := Bytes.length_block hpadding.ge me
  have hstale (me : Fin n) : ((before me).arena.messages.read full).length = padding.length :=
    (Pool.length_read _ _).trans hfull
  have hpart' (me : Fin n) :
      ((before me).arena.messages.read part).length = chunk * dtype.size :=
    (Pool.length_read _ _).trans hpart
  have hscatter := @together_scatter_blocks n (fun me => (before me).arena.messages.read full) _
    chunk dtype padding hpadding root hread hpart'
  refine .bind_readScratch (.bind (.issue_scratch hscatter.serves (fun _ => rfl) (fun _ => ?_)
    fun hfailed => hrefused _ _ ⟨position, by omega, hfailed trivial⟩ (fun _ => rfl) hsized))
  refine .bind_readScratch ?_
  simp only [fun me : Fin n => Workspace.read_fill (before me) ((hblock me).trans hpart.symm)]
  have hallgather := together_allgather_blocks hpadding hstale
  refine .bind (.issue_scratch hallgather.serves
    (fun me => Workspace.read_fill_of_disjoint _ _ (.inr hdisjoint)) (fun _ => ?_)
    fun hfailed => hrefused _ _ ⟨position + 1, by omega, hfailed trivial⟩ (fun _ => rfl)
      fun me => (Workspace.sized_fill _ _ _).mpr (hsized me))
  refine hnext _ (fun _ => rfl) (fun me => ?_) fun me => Workspace.read_fill _ hfull.symm
  simpa using hsized me

/-- A broadcast is realized by a scatter of the padded vector and an allgather. -/
theorem realizes_bcastAsScatterAllgather (root : Fin n)
    (houtputs : ∀ me, count * dtype.size ≤ (before me).output.length) :
    Realizes arithmetic refusals (Arena.Ready messages integers)
      (Layout.paddedCount count n * dtype.size +
        Layout.paddedCount count n / n * dtype.size ≤ messages)
      (fun me => (before me).output)
      (fun _ => (before root).output.slice 0 (count * dtype.size)) (fun _ => 0) position
      (fun me => bcastAsScatterAllgather ⟨me, n⟩ count dtype root) before := by
  have houtput (me : Fin n) : 0 + count * dtype.size ≤ (before me).output.length := by
    simpa using houtputs me
  have helements := Bytes.length_slice (houtput root)
  have hcount := Layout.le_paddedCount count n
  have hblocks : n * (Layout.paddedCount count n / n * dtype.size) =
      Layout.paddedCount count n * dtype.size := by
    rw [← Nat.mul_assoc, Layout.mul_div_paddedCount hn]
  refine .bind_checkOutput houtput (Realizes.withLease ?_)
  dsimp only
  generalize Layout.paddedCount count n = padded at hcount hblocks ⊢
  generalize padded / n = chunk at hblocks ⊢
  refine .bind_grabBlocks hready
    (fun hfits full part hfull hpart hdisjoint after hafter hsized => ?_)
    fun hlarge after hafter hsized =>
      .of_output_eq (fun h => absurd h (Nat.not_le.mpr hlarge)) hsized hafter
  -- The root puts its padded elements into its first region.
  let elements : Bytes := (before root).output.slice 0 (count * dtype.size)
  let padding : Bytes := Layout.padWithFirst
    (Bytes.overwrite ((after root).arena.messages.read full) 0 elements) count padded dtype.size
  have hstale : ((after root).arena.messages.read full).length = padded * dtype.size := by
    rw [Pool.length_read, hfull]
  have hpadding : padding.length = padded * dtype.size :=
    Layout.length_padWithFirst_overwrite hcount hstale helements
  have htake : padding.take (count * dtype.size) = elements :=
    Layout.take_padWithFirst_overwrite hcount hstale helements
  refine .of_root_fill (hpadding.trans hfull.symm) hsized ?_ fun loaded hkept hsized' hread => ?_
  · simp only [padding, elements, ← hafter root, Bytes.slice_start]
    rfl
  have hkept' (me : Fin n) : (loaded me).output = (before me).output :=
    (hkept me).trans (hafter me)
  refine bind_scatterAllgather (hpadding.trans hblocks.symm) (hfull.trans hpadding.symm) hpart
    hdisjoint hsized' hread (fun spread houtput' hsized'' hspread => ?_)
    fun stop failed hcause houtput' hsized'' =>
      .of_output_eq (fun _ => hcause) hsized'' fun me => (houtput' me).trans (hkept' me)
  -- Every rank but the root takes the elements from its first region.
  refine .of_branch (fun me => (spread me).emit 0 elements) (fun me _ => ?_)
    fun emitted hothers hroot => .pure ⟨hfits, fun me => ?_, fun me => ?_⟩
  · change (writeOutput 0 (((spread me).arena.messages.read full).take
      (count * dtype.size))).run.run (spread me) = _
    rw [hspread, htake]
    rfl
  · by_cases hme : (me : Nat) = root
    · rw [hroot me (not_not.mpr hme)]
      exact hsized'' me
    · rw [hothers me hme]
      exact hsized'' me
  · have houtput'' : (spread me).output = (before me).output := (houtput' me).trans (hkept' me)
    by_cases hme : (me : Nat) = root
    · rw [hroot me (not_not.mpr hme), houtput'', Fin.ext hme, Bytes.overwrite_slice]
    · rw [hothers me hme, Workspace.output_emit, houtput'']

/-! ### Gather and scatter with scratch space -/

omit hn in
/-- A call with the same result on all ranks, which only the root takes whole. Every other rank
takes it into scratch space. -/
theorem realizes_of_whole_at_root (root : Fin n) (primitive : Primitive) {size : Nat}
    {possible accepted : Prop} {contents : Bytes} {attempts : Fin n → Region → Attempt Unit}
    (hattempts : ∀ me region, attempts me region =
      (if me = root then wholeOutput else pure (.scratch region)) >>= issue primitive (inputs me))
    (hserves : ∀ outputs : Fin n → Bytes, (∀ me, size ≤ (outputs me).length) →
      Serves (fun me => exchange arithmetic me (inputs me) primitive) accepted outputs
        fun me => (outputs me).overwrite 0 contents)
    (hpossible : possible ↔ size ≤ messages ∧ accepted) (hcontents : contents.length = size)
    (houtput : size ≤ (before root).output.length) :
    Realizes arithmetic refusals (Arena.Ready messages integers) possible
      (fun me => (before me).output) (fun me => if me = root then contents else []) (fun _ => 0)
      position (fun me => withLease (grabMessages .first size >>= attempts me)) before := by
  refine .withLease (.bind_grabMessages_first (fun me => (hready me).1) (fun hfits => ?_)
    fun hlarge => ?_)
  · have hroom (me : Fin n) : size ≤ (if me = root then (before me).output
        else ((before me).holdMessages .first size).arena.messages.read
          ⟨.first, 0, size⟩).length := by
      split
      · next hme => exact hme ▸ houtput
      · rw [Pool.length_read]
    have hsized (me : Fin n) :
        ((before me).holdMessages .first size).arena.Sized messages integers := by
      simpa using (hready me).sized
    simp only [hattempts]
    refine .issue_root (hserves _ hroom) ?_
      (fun haccepted => ⟨hpossible.mpr ⟨hfits, haccepted⟩, fun me => ?_, fun me => ?_⟩)
      fun hrefused => .of_output_eq
        (fun h => ⟨position, by omega, hrefused (hpossible.mp h).2⟩) hsized fun _ => rfl
    · rw [if_pos rfl]
      exact Bytes.length_overwrite (by rw [hcontents, Nat.zero_add]; exact houtput)
    · split
      · exact hsized me
      · exact (Workspace.sized_fill _ _ _).mpr (hsized me)
    · split
      · rfl
      · simp
  · exact .of_output_eq (fun h => absurd (hpossible.mp h).1 (Nat.not_le.mpr hlarge))
      (fun me => (hready me).sized) fun _ => rfl

omit hn in
/-- A gather is realized by an allgather whose result is dropped outside the root. -/
theorem realizes_gatherAsAllgather (root : Fin n)
    (hinputs : ∀ me, count * dtype.size ≤ (inputs me).length)
    (houtput : n * (count * dtype.size) ≤ (before root).output.length) :
    Realizes arithmetic refusals (Arena.Ready messages integers)
      (n * (count * dtype.size) ≤ messages) (fun me => (before me).output)
      (fun me => if me = root then
        concat fun source => (inputs source).slice 0 (count * dtype.size) else []) (fun _ => 0)
      position (fun me => gatherAsAllgather ⟨me, n⟩ (inputs me) count dtype root) before := by
  simp only [gatherAsAllgather, Fin.val_inj]
  refine realizes_of_whole_at_root hready root (.allgather count dtype) (fun me region => ?_)
    (fun outputs houtputs => (together_allgather hinputs houtputs).serves)
    (and_iff_left trivial).symm (Bytes.length_concat_slice_zero hinputs) houtput
  split <;> rfl

omit hn in
/-- A scatter is realized by a broadcast of which each rank keeps its block. -/
theorem realizes_scatterAsBcast (root : Fin n)
    (hinput : n * (count * dtype.size) ≤ (inputs root).length)
    (houtputs : ∀ me, count * dtype.size ≤ (before me).output.length) :
    Realizes arithmetic refusals (Arena.Ready messages integers)
      (n * (count * dtype.size) ≤ messages) (fun me => (before me).output)
      (fun me => (inputs root).slice (me * (count * dtype.size)) (count * dtype.size)) (fun _ => 0)
      position (fun me => scatterAsBcast ⟨me, n⟩ (inputs me) count dtype root) before := by
  have htotal : n * count * dtype.size = n * (count * dtype.size) := Nat.mul_assoc _ _ _
  have hinput' : 0 + n * (count * dtype.size) ≤ (inputs root).length := by simpa using hinput
  have hall := Bytes.length_slice hinput'
  have houtput (me : Fin n) : 0 + count * dtype.size ≤ (before me).output.length := by
    simpa using houtputs me
  refine .bind_checkOutput houtput (Realizes.withLease ?_)
  dsimp only
  refine .bind_grabMessages_first (fun me => (hready me).1) (fun hfits => ?_) fun hlarge => ?_
  · let region : Region := ⟨.first, 0, n * (count * dtype.size)⟩
    let held (me : Fin n) : Workspace :=
      (before me).holdMessages .first (n * (count * dtype.size))
    have hsized (me : Fin n) : (held me).arena.Sized messages integers := by
      simpa [held] using (hready me).sized
    -- The root puts the blocks of all ranks into its region.
    have hfills : ((inputs root).slice 0 (n * (count * dtype.size))).length = region.length := hall
    refine .of_root_fill hfills hsized ?_ fun loaded hkept hsized' hread => ?_
    · rw [Bytes.span_eq_slice hinput']
      rfl
    · have hbcast := @together_bcast n (fun me => (loaded me).arena.messages.read region)
        (n * count) dtype root fun me => by rw [Pool.length_read, htotal]
      rw [htotal, hread, Bytes.slice_slice _ (by omega), Nat.zero_add] at hbcast
      refine .bind (.issue_scratch hbcast.serves (fun _ => rfl) (fun _ => ?_) fun hrefused => ?_)
      · refine .bind_readScratch (.writeOutput ⟨hfits, fun me => ?_, fun me => ?_⟩)
        · simpa using hsized' me
        · have hregion : ((loaded me).arena.messages.read region).length =
              n * (count * dtype.size) := Pool.length_read _ _
          rw [Bytes.overwrite_zero_of_length (by rw [hregion, hall])]
          change (loaded me).output.overwrite 0 (Bytes.slice _ _ _) = _
          rw [Workspace.read_fill _ hall,
            Bytes.slice_slice _ ((Bytes.tiles_uniform n _).stop_le me), Nat.zero_add, hkept]
          rfl
      · exact .of_output_eq (fun _ => ⟨position, by omega, hrefused trivial⟩) hsized' hkept
  · exact .of_output_eq (fun h => absurd h (Nat.not_le.mpr hlarge)) (fun me => (hready me).sized)
      fun _ => rfl

end Requests

end CollectiveTuner.Decomposition
