import CollectiveTuner.Proofs.Communicator.Movement
import CollectiveTuner.Proofs.Layout.Tilings

/-!
# Native operations that combine elements

Every reduction leaves the combination of the contributions in ascending rank order: of all
ranks, or of those up to or below each rank. A combination that is not supported is refused on
every rank before anything is sent.
-/

namespace CollectiveTuner.Native

open Transport Reduction
open Bytes (span_eq_slice)

variable {n : Nat} {inputs outputs : Fin n → Bytes} {count : Nat} {dtype : Datatype} {op : ReduceOp}
  {arithmetic : FloatArithmetic}

/-- The combination of the elements of some ranks, in the order in which they are listed. -/
def combined (arithmetic : FloatArithmetic) (dtype : Datatype) (op : ReduceOp) (count : Nat)
    (inputs : Fin n → Bytes) (ranks : List (Fin n)) : Bytes :=
  mergeAll arithmetic dtype op count
    (ranks.map fun source => (inputs source).slice 0 (count * dtype.size))

/-- A combination of at least one vector is as long as the vectors. -/
theorem length_combined (hinputs : ∀ me, count * dtype.size ≤ (inputs me).length)
    {ranks : List (Fin n)} (hranks : ranks ≠ []) :
    (combined arithmetic dtype op count inputs ranks).length = count * dtype.size := by
  refine length_mergeAll (by simpa using hranks) fun vector hvector => ?_
  obtain ⟨source, _, rfl⟩ := List.mem_map.mp hvector
  exact Bytes.length_slice_zero (hinputs source)

/-- A combination is never longer than the vectors. -/
theorem length_combined_le (hinputs : ∀ me, count * dtype.size ≤ (inputs me).length)
    (ranks : List (Fin n)) :
    (combined arithmetic dtype op count inputs ranks).length ≤ count * dtype.size := by
  by_cases hranks : ranks = []
  · subst hranks
    exact Nat.zero_le _
  · exact (length_combined hinputs hranks).le

/-- A slice of a combination is the combination of the slices. -/
theorem slice_combined {start length : Nat} (hblock : start + length ≤ count)
    (ranks : List (Fin n)) :
    (combined arithmetic dtype op count inputs ranks).slice (start * dtype.size)
        (length * dtype.size) =
      mergeAll arithmetic dtype op length (ranks.map fun source =>
        (inputs source).slice (start * dtype.size) (length * dtype.size)) := by
  have hbytes : start * dtype.size + length * dtype.size ≤ count * dtype.size := by
    rw [← Nat.add_mul]
    exact Nat.mul_le_mul_right _ hblock
  simp only [combined, slice_mergeAll hblock, List.map_map, Function.comp_def,
    Bytes.slice_slice _ hbytes, Nat.zero_add]

/-- The vector that is zero outside one rank's block. -/
def amongZeros (n block : Nat) (me : Fin n) (own : Bytes) : Bytes :=
  Bytes.overwrite (List.replicate (n * block) 0) (me * block) own

/-- A block among zeros makes a vector of one block for each rank. -/
theorem length_amongZeros {block : Nat} {me : Fin n} {own : Bytes} (hown : own.length = block) :
    (amongZeros n block me own).length = n * block := by
  have hblock := (Bytes.tiles_uniform n block).stop_le me
  rw [amongZeros, Bytes.length_overwrite (by rw [hown, List.length_replicate]; exact hblock),
    List.length_replicate]

/-- In a vector of one block among zeros, each rank has zeros but the one whose block it is. -/
theorem slice_amongZeros {block : Nat} {me : Fin n} {own : Bytes} (hown : own.length = block)
    (rank : Fin n) : (amongZeros n block me own).slice (rank * block) block =
      if rank = me then own else List.replicate block 0 := by
  have hblock := (Bytes.tiles_uniform n block).stop_le me
  have hrank := (Bytes.tiles_uniform n block).stop_le rank
  split
  · next heq =>
    rw [heq, amongZeros, ← hown]
    exact Bytes.slice_overwrite (by rw [List.length_replicate, hown]; omega)
  · next hne =>
    have hdisjoint :
        rank * block + block ≤ me * block ∨ me * block + own.length ≤ rank * block := by
      rw [hown, ← Nat.succ_mul, ← Nat.succ_mul]
      rcases Nat.lt_or_gt_of_ne (Fin.val_ne_of_ne hne) with hlt | hgt
      · exact .inl (Nat.mul_le_mul_right block hlt)
      · exact .inr (Nat.mul_le_mul_right block hgt)
    rw [amongZeros, Bytes.slice_overwrite_of_disjoint
      (by rw [hown, List.length_replicate]; exact hblock) hdisjoint, Bytes.slice_replicate hrank]

/-- The bitwise or of vectors that are zero outside each rank's block puts the blocks together. -/
theorem combined_amongZeros {block : Nat} {own : Fin n → Bytes}
    (hown : ∀ me, (own me).length = block) (hn : 0 < n) :
    combined arithmetic .uint8 .bitOr (n * block) (fun me => amongZeros n block me (own me))
      (List.finRange n) = Bytes.concat own := by
  have hlength (me : Fin n) : (amongZeros n block me (own me)).length = n * block :=
    length_amongZeros (hown me)
  have hsize : Datatype.uint8.size = 1 := rfl
  refine (Bytes.tiles_uniform n block).eq_concat ?_ fun rank => ?_
  · rw [length_combined (fun me => by rw [hlength, hsize, Nat.mul_one])
      (List.ne_nil_of_mem (List.mem_finRange ⟨0, hn⟩)), hsize, Nat.mul_one]
  · have hslice := @slice_combined n (fun me => amongZeros n block me (own me)) (n * block) .uint8
      .bitOr arithmetic (rank * block) block ((Bytes.tiles_uniform n block).stop_le rank)
      (List.finRange n)
    simp only [hsize, Nat.mul_one, slice_amongZeros (hown _)] at hslice
    rw [hslice]
    -- Among the slices at the place of a rank only its own is not all zeros.
    obtain ⟨first, rest, hranks⟩ := List.append_of_mem (List.mem_finRange rank)
    have hnodup := List.nodup_finRange n
    rw [hranks] at hnodup ⊢
    obtain ⟨_, hrest, hdisjoint⟩ := List.nodup_append.mp hnodup
    rw [List.map_append, List.map_cons, if_pos rfl]
    refine mergeAll_among_zeros (hown rank) (fun other hother => ?_) fun other hother => ?_
    · obtain ⟨source, hsource, rfl⟩ := List.mem_map.mp hother
      rw [if_neg (hdisjoint source hsource rank (by simp)).symm]
    · obtain ⟨source, hsource, rfl⟩ := List.mem_map.mp hother
      rw [if_neg]
      rintro rfl
      exact (List.nodup_cons.mp hrest).1 hsource

/-- The result of a fold is written at the start of the buffer. -/
theorem Performs.keepFold {folded : Option Bytes} {before : Bytes}
    (hlength : (folded.getD []).length ≤ before.length) :
    Performs (keepFold folded : Exchange n Unit) before [] (.ok ())
      (before.overwrite 0 (folded.getD [])) := by
  cases folded with
  | none =>
    rw [Option.getD_none, Bytes.overwrite_nil]
    exact .pure ()
  | some block => exact .keep rfl (by simpa using hlength)

/-- A fold over some sources whose result is written at the start of the buffer. Without sources
nothing is written. -/
theorem Performs.fold_keepFold (me : Fin n) {contribution : Fin n → Bytes} (operation : String)
    {before : Bytes} (sources : List (Fin n)) (hsupported : Supported dtype op)
    (hlength : ∀ source, (contribution source).length = count * dtype.size)
    (hbefore : sources ≠ [] → count * dtype.size ≤ before.length) :
    Performs
      (Native.fold arithmetic me (contribution me) count dtype op operation sources none >>=
        Native.keepFold)
      before
      (taking ((sources.filter fun rank => rank ≠ me).map fun rank => (rank, contribution rank)))
      (.ok ())
      (before.overwrite 0 (mergeAll arithmetic dtype op count (sources.map contribution))) := by
  have hfolded : (mergeAll arithmetic dtype op count (sources.map contribution)).length ≤
      before.length := by
    by_cases hsources : sources = []
    · subst hsources
      exact Nat.zero_le _
    · rw [length_mergeAll (by simpa using hsources) (by simpa using fun source _ => hlength source)]
      exact hbefore hsources
  rw [← getD_foldl_join] at hfolded ⊢
  have hperforms := (Performs.fold arithmetic me operation hsupported hlength
    (by simp)).bind (Performs.keepFold hfolded)
  rwa [List.append_nil] at hperforms

/-- A reduce leaves the root the combination of the elements of all ranks, and the other ranks
what they had. -/
theorem together_reduce (root : Fin n) (hsupported : Supported dtype op)
    (hinputs : ∀ me, count * dtype.size ≤ (inputs me).length)
    (houtput : count * dtype.size ≤ (outputs root).length) :
    Together (fun me => reduce arithmetic me (inputs me) count dtype op root) outputs
      (fun _ => .ok ()) fun me =>
        if me = root then
          (outputs me).overwrite 0 (combined arithmetic dtype op count inputs (List.finRange n))
        else outputs me := by
  have hinput (me : Fin n) : 0 + count * dtype.size ≤ (inputs me).length := by
    simpa using hinputs me
  refine together_to_root root (fun source => (inputs source).slice 0 (count * dtype.size)) ?_
    fun me hme => ?_
  · refine .bind_lift (validRank_eq_ok root) <|
      .bind_lift (checkSupported_of_supported hsupported) <|
      .bind_lift (span_eq_slice (hinput root)) ?_
    rw [if_pos rfl, if_pos rfl]
    exact .fold_keepFold root "reduce" (List.finRange n) hsupported
      (fun source => Bytes.length_slice (hinput source)) fun _ => houtput
  · refine .bind_lift (validRank_eq_ok root) <|
      .bind_lift (checkSupported_of_supported hsupported) <|
      .bind_lift (span_eq_slice (hinput me)) ?_
    rw [if_neg hme, if_neg hme]
    exact .deliver root _

/-- An allreduce leaves every rank the combination of the elements of all ranks. -/
theorem together_allreduce (hn : 0 < n) (hsupported : Supported dtype op)
    (hinputs : ∀ me, count * dtype.size ≤ (inputs me).length)
    (houtputs : ∀ me, count * dtype.size ≤ (outputs me).length) :
    Together (fun me => allreduce arithmetic me (inputs me) count dtype op) outputs
      (fun _ => .ok ()) fun me =>
        (outputs me).overwrite 0 (combined arithmetic dtype op count inputs (List.finRange n)) := by
  let root : Fin n := ⟨0, hn⟩
  have hlength := @length_combined n inputs count dtype op arithmetic hinputs (List.finRange n)
    (List.ne_nil_of_mem (List.mem_finRange root))
  have hreduce : Together (fun me => reduce arithmetic me (inputs me) count dtype op 0) outputs
      (fun _ => .ok ()) _ :=
    together_reduce root hsupported hinputs (houtputs root)
  have hmiddle (me : Fin n) : (if me = root then (outputs me).overwrite 0
      (combined arithmetic dtype op count inputs (List.finRange n)) else outputs me).length =
        (outputs me).length := by
    split
    · exact Bytes.length_overwrite (by rw [hlength]; simpa using houtputs me)
    · rfl
  have hbcast := @together_bcast n _ count dtype root fun me => (hmiddle me).symm ▸ houtputs me
  rw [if_pos rfl, ← hlength, Bytes.slice_overwrite (Nat.zero_le _)] at hbcast
  convert hreduce.bind hbcast using 2 with me me
  · rfl
  · split
    · rw [Bytes.overwrite_zero_overwrite (Nat.zero_le _) (Nat.zero_add _).le]
    · rfl

/-- A reduce-scatter leaves every rank its block of the combination of the elements of all
ranks. -/
theorem together_reduceScatter {receiveCounts : List Nat} (hsupported : Supported dtype op)
    (hcounts : n ≤ receiveCounts.length)
    (hinputs : ∀ me, Layout.displacement receiveCounts n * dtype.size ≤ (inputs me).length)
    (houtputs : ∀ me, entry receiveCounts me * dtype.size ≤ (outputs me).length) :
    Together (fun me => reduceScatter arithmetic me (inputs me) receiveCounts dtype op) outputs
      (fun _ => .ok ()) fun me =>
        (outputs me).overwrite 0
          ((combined arithmetic dtype op (Layout.displacement receiveCounts n) inputs
            (List.finRange n)).slice (Layout.displacement receiveCounts me * dtype.size)
              (entry receiveCounts me * dtype.size)) := by
  have htiles := Layout.tiles_displacement hcounts dtype.size
  have hblock (source me : Fin n) : Layout.displacement receiveCounts me * dtype.size +
      entry receiveCounts me * dtype.size ≤ (inputs source).length :=
    (htiles.stop_le me).trans (hinputs source)
  have helements (me : Fin n) : Layout.displacement receiveCounts me + entry receiveCounts me ≤
      Layout.displacement receiveCounts n := by
    simpa [entry] using (Layout.tiles_displacement hcounts 1).stop_le me
  refine together_all_to_all (fun source dest => (inputs source).slice
    (Layout.displacement receiveCounts dest * dtype.size) (entry receiveCounts dest * dtype.size))
    fun me => ?_
  rw [slice_combined (helements me)]
  refine .bind_lift (checkSupported_of_supported hsupported) ?_
  dsimp only
  rw [if_neg (by omega)]
  refine .bind (.forM_posting fun dest _ =>
    .bind_lift (span_eq_slice (hblock me dest)) (.deliver dest _)) <|
    .bind_lift (span_eq_slice (hblock me me)) ?_
  exact @Performs.fold_keepFold n (entry receiveCounts me) dtype op arithmetic me
    (fun source => (inputs source).slice (Layout.displacement receiveCounts me * dtype.size)
      (entry receiveCounts me * dtype.size)) "reduce_scatter" _ (List.finRange n) hsupported
    (fun source => Bytes.length_slice (hblock source me)) fun _ => houtputs me

/-- A reduce-scatter of equal blocks whose length fits in a message header. -/
theorem together_reduceScatterBlock (hsupported : Supported dtype op) (hfits : count < UInt32.size)
    (hinputs : ∀ me, n * count * dtype.size ≤ (inputs me).length)
    (houtputs : ∀ me, count * dtype.size ≤ (outputs me).length) :
    Together (fun me => reduceScatterBlock arithmetic me (inputs me) count dtype op) outputs
      (fun _ => .ok ()) fun me =>
        (outputs me).overwrite 0
          ((combined arithmetic dtype op (n * count) inputs (List.finRange n)).slice
            (me * count * dtype.size) (count * dtype.size)) := by
  have hentry (me : Fin n) : entry (List.replicate n count) me = count := by
    simp [entry]
  have htogether := @together_reduceScatter n inputs outputs dtype op arithmetic
    (List.replicate n count) hsupported (by simp)
    (fun me => by rw [Layout.displacement_replicate count le_rfl]; exact hinputs me)
    (fun me => by rw [hentry]; exact houtputs me)
  simp only [hentry, Layout.displacement_replicate count le_rfl,
    fun me : Fin n => Layout.displacement_replicate count me.isLt.le] at htogether
  have hexchange : (fun me => reduceScatterBlock arithmetic me (inputs me) count dtype op) =
      fun me => reduceScatter arithmetic me (inputs me) (List.replicate n count) dtype op := by
    funext me
    rw [reduceScatterBlock, toCount_eq_ok hfits]
    rfl
  rw [hexchange]
  exact htogether

/-- A scan leaves every rank the combination of the elements of the ranks up to it. -/
theorem together_scan (hsupported : Supported dtype op)
    (hinputs : ∀ me, count * dtype.size ≤ (inputs me).length)
    (houtputs : ∀ me, count * dtype.size ≤ (outputs me).length) :
    Together (fun me => scan arithmetic me (inputs me) count dtype op) outputs (fun _ => .ok ())
      fun me => (outputs me).overwrite 0
        (combined arithmetic dtype op count inputs ((List.finRange n).filter (· ≤ me))) := by
  have hinput (me : Fin n) : 0 + count * dtype.size ≤ (inputs me).length := by
    simpa using hinputs me
  refine together_upward (fun source => (inputs source).slice 0 (count * dtype.size)) fun me => ?_
  have hothers : (((List.finRange n).filter (· ≤ me)).filter fun rank => rank ≠ me) =
      (List.finRange n).filter (· < me) := by
    rw [List.filter_filter]
    refine List.filter_congr fun rank _ => ?_
    simp [lt_iff_le_and_ne, and_comm]
  have hfold := @Performs.fold_keepFold n count dtype op arithmetic me
    (fun source => (inputs source).slice 0 (count * dtype.size)) "scan" (outputs me)
    ((List.finRange n).filter (· ≤ me)) hsupported
    (fun source => Bytes.length_slice (hinput source)) fun _ => houtputs me
  rw [hothers] at hfold
  exact .bind_lift (checkSupported_of_supported hsupported) <|
    .bind_lift (span_eq_slice (hinput me)) <|
    .bind (.forM_posting fun dest _ => .deliver dest _) hfold

/-- An exscan leaves every rank the combination of the elements of the ranks below it, and rank 0
what it had. -/
theorem together_exscan (hsupported : Supported dtype op)
    (hinputs : ∀ me, count * dtype.size ≤ (inputs me).length)
    (houtputs : ∀ me, (List.finRange n).filter (· < me) ≠ [] →
      count * dtype.size ≤ (outputs me).length) :
    Together (fun me => exscan arithmetic me (inputs me) count dtype op) outputs (fun _ => .ok ())
      fun me => (outputs me).overwrite 0
        (combined arithmetic dtype op count inputs ((List.finRange n).filter (· < me))) := by
  have hinput (me : Fin n) : 0 + count * dtype.size ≤ (inputs me).length := by
    simpa using hinputs me
  refine together_upward (fun source => (inputs source).slice 0 (count * dtype.size)) fun me => ?_
  have hothers : (((List.finRange n).filter (· < me)).filter fun rank => rank ≠ me) =
      (List.finRange n).filter (· < me) := by
    rw [List.filter_eq_self]
    intro rank hrank
    simpa using ne_of_lt (of_decide_eq_true (List.mem_filter.mp hrank).2)
  have hfold := @Performs.fold_keepFold n count dtype op arithmetic me
    (fun source => (inputs source).slice 0 (count * dtype.size)) "exscan" (outputs me)
    ((List.finRange n).filter (· < me)) hsupported
    (fun source => Bytes.length_slice (hinput source)) (houtputs me)
  rw [hothers] at hfold
  exact .bind_lift (checkSupported_of_supported hsupported) <|
    .bind_lift (span_eq_slice (hinput me)) <|
    .bind (.forM_posting fun dest _ => .deliver dest _) hfold

/-! ### Combinations that are not supported -/

/-- A reduce serves the root with the combination of all vectors. -/
theorem serves_reduce (root : Fin n) (hinputs : ∀ me, count * dtype.size ≤ (inputs me).length)
    (houtput : count * dtype.size ≤ (outputs root).length) :
    Serves (fun me => reduce arithmetic me (inputs me) count dtype op root) (Supported dtype op)
      outputs fun me =>
        if me = root then
          (outputs me).overwrite 0 (combined arithmetic dtype op count inputs (List.finRange n))
        else outputs me where
  together hsupported := together_reduce root hsupported hinputs houtput
  rejected hunsupported := ⟨_, together_of_quiet fun _ => .bind_lift (validRank_eq_ok root)
    (.bind_lift_error (checkSupported_of_not_supported hunsupported))⟩

/-- An allreduce serves every rank with the combination of all vectors. -/
theorem serves_allreduce (hn : 0 < n) (hinputs : ∀ me, count * dtype.size ≤ (inputs me).length)
    (houtputs : ∀ me, count * dtype.size ≤ (outputs me).length) :
    Serves (fun me => allreduce arithmetic me (inputs me) count dtype op) (Supported dtype op)
      outputs fun me =>
        (outputs me).overwrite 0 (combined arithmetic dtype op count inputs (List.finRange n)) where
  together hsupported := together_allreduce hn hsupported hinputs houtputs
  rejected hunsupported := ⟨_, together_of_quiet fun _ => .bind_error <|
    .bind_lift (validRank_eq_ok (⟨0, hn⟩ : Fin n))
      (.bind_lift_error (checkSupported_of_not_supported hunsupported))⟩

/-- A reduce-scatter serves every rank with its own part of the combination of all vectors. -/
theorem serves_reduceScatter {receiveCounts : List Nat} (hcounts : n ≤ receiveCounts.length)
    (hinputs : ∀ me, Layout.displacement receiveCounts n * dtype.size ≤ (inputs me).length)
    (houtputs : ∀ me, entry receiveCounts me * dtype.size ≤ (outputs me).length) :
    Serves (fun me => reduceScatter arithmetic me (inputs me) receiveCounts dtype op)
      (Supported dtype op) outputs fun me =>
        (outputs me).overwrite 0
          ((combined arithmetic dtype op (Layout.displacement receiveCounts n) inputs
            (List.finRange n)).slice (Layout.displacement receiveCounts me * dtype.size)
              (entry receiveCounts me * dtype.size)) where
  together hsupported := together_reduceScatter hsupported hcounts hinputs houtputs
  rejected hunsupported := ⟨_, together_of_quiet fun _ =>
    .bind_lift_error (checkSupported_of_not_supported hunsupported)⟩

/-- A reduce-scatter of equal blocks is also rejected when the length of the blocks does not fit
in a message header. -/
theorem serves_reduceScatterBlock (hinputs : ∀ me, n * count * dtype.size ≤ (inputs me).length)
    (houtputs : ∀ me, count * dtype.size ≤ (outputs me).length) :
    Serves (fun me => reduceScatterBlock arithmetic me (inputs me) count dtype op)
      (Supported dtype op ∧ count < UInt32.size) outputs fun me =>
        (outputs me).overwrite 0
          ((combined arithmetic dtype op (n * count) inputs (List.finRange n)).slice
            (me * count * dtype.size) (count * dtype.size)) where
  together haccepted := together_reduceScatterBlock haccepted.1 haccepted.2 hinputs houtputs
  rejected hrejected := by
    by_cases hfits : count < UInt32.size
    · exact ⟨_, together_of_quiet fun _ => .bind_lift (toCount_eq_ok hfits)
        (.bind_lift_error (checkSupported_of_not_supported fun h => hrejected ⟨h, hfits⟩))⟩
    · exact ⟨_, together_of_quiet fun _ => .bind_lift_error (toCount_eq_error hfits)⟩

/-- A scan serves every rank with the combination of the vectors up to its own. -/
theorem serves_scan (hinputs : ∀ me, count * dtype.size ≤ (inputs me).length)
    (houtputs : ∀ me, count * dtype.size ≤ (outputs me).length) :
    Serves (fun me => scan arithmetic me (inputs me) count dtype op) (Supported dtype op) outputs
      fun me => (outputs me).overwrite 0
        (combined arithmetic dtype op count inputs ((List.finRange n).filter (· ≤ me))) where
  together hsupported := together_scan hsupported hinputs houtputs
  rejected hunsupported := ⟨_, together_of_quiet fun _ =>
    .bind_lift_error (checkSupported_of_not_supported hunsupported)⟩

/-- An exscan serves every rank with the combination of the vectors before its own. -/
theorem serves_exscan (hinputs : ∀ me, count * dtype.size ≤ (inputs me).length)
    (houtputs : ∀ me, count * dtype.size ≤ (outputs me).length) :
    Serves (fun me => exscan arithmetic me (inputs me) count dtype op) (Supported dtype op) outputs
      fun me => (outputs me).overwrite 0
        (combined arithmetic dtype op count inputs ((List.finRange n).filter (· < me))) where
  together hsupported := together_exscan hsupported hinputs fun me _ => houtputs me
  rejected hunsupported := ⟨_, together_of_quiet fun _ =>
    .bind_lift_error (checkSupported_of_not_supported hunsupported)⟩

end CollectiveTuner.Native
