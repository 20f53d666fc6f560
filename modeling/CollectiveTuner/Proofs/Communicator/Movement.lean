import CollectiveTuner.Proofs.Communicator.Together
import CollectiveTuner.Proofs.Layout.Tilings

/-!
# Native operations that move data

What bcast, scatter, gather, allgather and alltoall and their variants with layouts leave in
the buffers of all ranks. Every operation here ends well on every rank when the blocks lie in
the buffers and sender and receiver agree on how long each block is.
-/

namespace CollectiveTuner.Native

open Transport
open Bytes (Tiles concat place span_eq_slice)

variable {n : Nat} {inputs outputs : Fin n → Bytes} {count : Nat} {dtype : Datatype}

/-- A rank of the group passes the check of the root. -/
theorem validRank_eq_ok (rank : Fin n) : validRank rank.val = .ok rank := by
  rw [validRank, dif_pos rank.isLt]
  rfl

/-- A rank outside the group is refused as an invalid root. -/
theorem validRank_eq_error {rank : Nat} (hrank : n ≤ rank) :
    (validRank rank : Except Error (Fin n)) = .error (.invalidRank rank n) := by
  rw [validRank, dif_neg (by omega)]
  rfl

/-- A layout with an entry for each rank passes its check. -/
theorem checkLayout_eq_ok {counts displs : List Nat} (hcounts : n ≤ counts.length)
    (hdispls : n ≤ displs.length) : checkLayout n counts displs = .ok () := by
  rw [checkLayout, if_neg (by omega)]
  rfl

/-- A bcast leaves the root's elements with every rank. -/
theorem together_bcast (root : Fin n)
    (houtputs : ∀ me, count * dtype.size ≤ (outputs me).length) :
    Together (fun me => bcast me count dtype root) outputs (fun _ => .ok ()) fun me =>
      (outputs me).overwrite 0 ((outputs root).slice 0 (count * dtype.size)) := by
  have hblock (me : Fin n) : 0 + count * dtype.size ≤ (outputs me).length := by
    simpa using houtputs me
  refine together_from_root root (fun _ => (outputs root).slice 0 (count * dtype.size)) ?_
    fun me hme => ?_
  · refine .bind_lift (validRank_eq_ok root) ?_
    dsimp only
    rw [if_pos rfl, Bytes.overwrite_slice]
    exact .bind_quiet .get
      (.bind_lift (span_eq_slice (hblock root)) (.forM_posting fun dest _ => .deliver dest _))
  · refine .bind_lift (validRank_eq_ok root) ?_
    dsimp only
    rw [if_neg hme]
    exact .acceptInto root "bcast" (Bytes.length_slice (hblock root)) (hblock me)

/-- A scatter leaves every rank its block of the root's elements. -/
theorem together_scatter (root : Fin n)
    (hinput : n * (count * dtype.size) ≤ (inputs root).length)
    (houtputs : ∀ me, count * dtype.size ≤ (outputs me).length) :
    Together (fun me => scatter me (inputs me) count dtype root) outputs (fun _ => .ok ()) fun me =>
      (outputs me).overwrite 0
        ((inputs root).slice (me * (count * dtype.size)) (count * dtype.size)) := by
  have htiles := Bytes.tiles_uniform n (count * dtype.size)
  have hblock (me : Fin n) :
      me * (count * dtype.size) + count * dtype.size ≤ (inputs root).length :=
    (htiles.stop_le me).trans hinput
  have hfits (me : Fin n) : 0 + count * dtype.size ≤ (outputs me).length := by
    simpa using houtputs me
  refine together_from_root root
    (fun me => (inputs root).slice (me * (count * dtype.size)) (count * dtype.size)) ?_
    fun me hme => ?_
  · refine .bind_lift (validRank_eq_ok root) ?_
    dsimp only
    rw [if_pos rfl]
    refine .forM_dealing (List.nodup_finRange n) (List.mem_finRange root) ?_
      fun dest hdest buffer => ?_
    · refine .bind_lift (span_eq_slice (hblock root)) ?_
      rw [if_pos rfl]
      exact .keep (Bytes.length_slice (hblock root)) (hfits root)
    · refine .bind_lift (span_eq_slice (hblock dest)) ?_
      rw [if_neg hdest]
      exact .deliver dest _
  · refine .bind_lift (validRank_eq_ok root) ?_
    dsimp only
    rw [if_neg hme]
    exact .acceptInto root "scatter" (Bytes.length_slice (hblock me)) (hfits me)

/-- A scatterv leaves every rank the block that the root's layout gives it. -/
theorem together_scatterv {counts displs : Fin n → List Nat} {receiveCount : Fin n → Nat}
    (root : Fin n) (hcounts : n ≤ (counts root).length) (hdispls : n ≤ (displs root).length)
    (hmatch : ∀ me : Fin n, entry (counts root) me = receiveCount me)
    (hinput : ∀ me : Fin n, entry (displs root) me * dtype.size + receiveCount me * dtype.size ≤
      (inputs root).length)
    (houtputs : ∀ me, receiveCount me * dtype.size ≤ (outputs me).length) :
    Together (fun me =>
        scatterv me (inputs me) (counts me) (displs me) (receiveCount me) dtype root)
      outputs (fun _ => .ok ()) fun me =>
        (outputs me).overwrite 0
          ((inputs root).slice (entry (displs root) me * dtype.size)
            (receiveCount me * dtype.size)) := by
  have hfits (me : Fin n) : 0 + receiveCount me * dtype.size ≤ (outputs me).length := by
    simpa using houtputs me
  have hspan (me : Fin n) : (inputs root).span (entry (displs root) me * dtype.size)
      (entry (counts root) me * dtype.size) = .ok ((inputs root).slice
        (entry (displs root) me * dtype.size) (receiveCount me * dtype.size)) := by
    rw [hmatch, span_eq_slice (hinput me)]
  refine together_from_root root (fun me =>
    (inputs root).slice (entry (displs root) me * dtype.size) (receiveCount me * dtype.size)) ?_
    fun me hme => ?_
  · refine .bind_lift (validRank_eq_ok root) ?_
    dsimp only
    rw [if_pos rfl]
    refine .bind_lift (checkLayout_eq_ok hcounts hdispls) <|
      .forM_dealing (List.nodup_finRange n) (List.mem_finRange root) ?_ fun dest hdest buffer => ?_
    · refine .bind_lift (hspan root) ?_
      rw [if_pos rfl]
      exact .keep (Bytes.length_slice (hinput root)) (hfits root)
    · refine .bind_lift (hspan dest) ?_
      rw [if_neg hdest]
      exact .deliver dest _
  · refine .bind_lift (validRank_eq_ok root) ?_
    dsimp only
    rw [if_neg hme]
    exact .acceptInto root "scatterv" (Bytes.length_slice (hinput me)) (hfits me)

/-- A gather leaves the root the blocks of all ranks, and the other ranks what they had. -/
theorem together_gather (root : Fin n) (hinputs : ∀ me, count * dtype.size ≤ (inputs me).length)
    (houtput : n * (count * dtype.size) ≤ (outputs root).length) :
    Together (fun me => gather me (inputs me) count dtype root) outputs (fun _ => .ok ()) fun me =>
      if me = root then
        (outputs me).overwrite 0 (concat fun source => (inputs source).slice 0 (count * dtype.size))
      else outputs me := by
  have htiles := Bytes.tiles_uniform n (count * dtype.size)
  have hinput (me : Fin n) : 0 + count * dtype.size ≤ (inputs me).length := by
    simpa using hinputs me
  have hlength (me : Fin n) :
      ((inputs me).slice 0 (count * dtype.size)).length = count * dtype.size :=
    Bytes.length_slice (hinput me)
  have hblock (me : Fin n) (buffer : Bytes) (hbuffer : buffer.length = (outputs root).length) :
      me * (count * dtype.size) + count * dtype.size ≤ buffer.length :=
    (htiles.stop_le me).trans (hbuffer ▸ houtput)
  refine together_to_root root (fun source => (inputs source).slice 0 (count * dtype.size)) ?_
    fun me hme => ?_
  · refine .bind_lift (validRank_eq_ok root) <| .bind_lift (span_eq_slice (hinput root)) ?_
    rw [if_pos rfl, if_pos rfl, ← htiles.place_finRange hlength houtput]
    refine .forM_placing root (fun rank _ => ?_) (fun _ buffer hbuffer => ?_)
      fun rank _ hrank buffer hbuffer => ?_
    · rw [hlength]
      exact hblock rank _ rfl
    · rw [if_pos rfl]
      exact .keep (hlength root) (hblock root buffer hbuffer)
    · rw [if_neg hrank]
      exact .acceptInto rank "gather" (hlength rank) (hblock rank buffer hbuffer)
  · refine .bind_lift (validRank_eq_ok root) <| .bind_lift (span_eq_slice (hinput me)) ?_
    rw [if_neg hme, if_neg hme]
    exact .deliver root _

section Placing

variable {own : Fin n → Bytes} {counts displs : List Nat}

/-- The loop that places a block of every rank as a layout says. -/
theorem Performs.forM_placeBlock (me : Fin n) (operation : String) {before : Bytes}
    (hlength : ∀ source, (own source).length = entry counts source * dtype.size)
    (hblock : ∀ source : Fin n,
      entry displs source * dtype.size + entry counts source * dtype.size ≤ before.length) :
    Performs ((List.finRange n).forM fun source =>
        placeBlock me source (own me) counts displs dtype operation) before
      (taking ((peers me).map fun source => (source, own source))) (.ok ())
      (place (List.finRange n) (fun source => entry displs source * dtype.size) own before) := by
  refine .forM_placing me (fun rank _ => ?_) (fun _ buffer hbuffer => ?_)
    fun rank _ hrank buffer hbuffer => ?_
  · rw [hlength]
    exact hblock rank
  · rw [placeBlock, if_pos rfl]
    exact .keep (hlength me) (hbuffer ▸ hblock me)
  · rw [placeBlock, if_neg hrank]
    exact .acceptInto rank operation (hlength rank) (hbuffer ▸ hblock rank)

end Placing

/-- A gatherv leaves the root the blocks of all ranks where the root's layout puts them. -/
theorem together_gatherv {sendCount : Fin n → Nat} {counts displs : Fin n → List Nat}
    (root : Fin n) (hcounts : n ≤ (counts root).length) (hdispls : n ≤ (displs root).length)
    (hmatch : ∀ me : Fin n, entry (counts root) me = sendCount me)
    (hinputs : ∀ me, sendCount me * dtype.size ≤ (inputs me).length)
    (houtput : ∀ me : Fin n, entry (displs root) me * dtype.size + sendCount me * dtype.size ≤
      (outputs root).length) :
    Together (fun me => gatherv me (inputs me) (sendCount me) (counts me) (displs me) dtype root)
      outputs (fun _ => .ok ()) fun me =>
        if me = root then
          place (List.finRange n) (fun source => entry (displs root) source * dtype.size)
            (fun source => (inputs source).slice 0 (sendCount source * dtype.size)) (outputs me)
        else outputs me := by
  have hinput (me : Fin n) : 0 + sendCount me * dtype.size ≤ (inputs me).length := by
    simpa using hinputs me
  refine together_to_root root
    (fun source => (inputs source).slice 0 (sendCount source * dtype.size)) ?_ fun me hme => ?_
  · refine .bind_lift (validRank_eq_ok root) <| .bind_lift (span_eq_slice (hinput root)) ?_
    rw [if_pos rfl, if_pos rfl]
    refine .bind_lift (checkLayout_eq_ok hcounts hdispls) ?_
    refine @Performs.forM_placeBlock n dtype
      (fun source => (inputs source).slice 0 (sendCount source * dtype.size)) _ _ root "gatherv" _
      (fun source => ?_) fun source => ?_
    · rw [Bytes.length_slice (hinput source), hmatch]
    · rw [hmatch]
      exact houtput source
  · refine .bind_lift (validRank_eq_ok root) <| .bind_lift (span_eq_slice (hinput me)) ?_
    rw [if_neg hme, if_neg hme]
    exact .deliver root _

/-- When the blocks tile, a gatherv leaves the root the blocks of all ranks one after another. -/
theorem together_gatherv_of_tiles {counts displs : List Nat} {start length : Nat → Nat}
    (root : Fin n) (htiles : Tiles n start length) (hcounts : n ≤ counts.length)
    (hdispls : n ≤ displs.length)
    (hlength : ∀ me : Fin n, entry counts me * dtype.size = length me)
    (hstart : ∀ me : Fin n, entry displs me * dtype.size = start me)
    (hinputs : ∀ me : Fin n, length me ≤ (inputs me).length)
    (houtput : start n ≤ (outputs root).length) :
    Together (fun me => gatherv me (inputs me) (entry counts me) counts displs dtype root) outputs
      (fun _ => .ok ()) fun me =>
        if me = root then
          (outputs me).overwrite 0 (concat fun source => (inputs source).slice 0 (length source))
        else outputs me := by
  have htogether := @together_gatherv n inputs outputs dtype (entry counts) (fun _ => counts)
    (fun _ => displs) root hcounts hdispls (fun _ => rfl)
    (fun me => by rw [hlength]; exact hinputs me)
    fun me => by rw [hstart, hlength]; exact (htiles.stop_le me).trans houtput
  simp only [hlength, hstart] at htogether
  convert htogether using 2 with me
  split
  · next hme =>
    subst hme
    exact (htiles.place_finRange (fun source => Bytes.length_slice_zero (hinputs source))
      houtput).symm
  · rfl

/-- An allgather leaves every rank the blocks of all ranks. -/
theorem together_allgather (hinputs : ∀ me, count * dtype.size ≤ (inputs me).length)
    (houtputs : ∀ me, n * (count * dtype.size) ≤ (outputs me).length) :
    Together (fun me => allgather me (inputs me) count dtype) outputs (fun _ => .ok ()) fun me =>
      (outputs me).overwrite 0
        (concat fun source => (inputs source).slice 0 (count * dtype.size)) := by
  have htiles := Bytes.tiles_uniform n (count * dtype.size)
  have hinput (me : Fin n) : 0 + count * dtype.size ≤ (inputs me).length := by
    simpa using hinputs me
  have hlength (me : Fin n) :
      ((inputs me).slice 0 (count * dtype.size)).length = count * dtype.size :=
    Bytes.length_slice (hinput me)
  refine together_all_to_all (fun source _ => (inputs source).slice 0 (count * dtype.size))
    fun me => ?_
  have hblock (rank : Fin n) (buffer : Bytes) (hbuffer : buffer.length = (outputs me).length) :
      rank * (count * dtype.size) + count * dtype.size ≤ buffer.length :=
    (htiles.stop_le rank).trans (hbuffer ▸ houtputs me)
  rw [← htiles.place_finRange hlength (houtputs me)]
  refine .bind_lift (span_eq_slice (hinput me)) <|
    .bind (.forM_posting fun dest _ => .deliver dest _) <|
    .forM_placing me (fun rank _ => ?_) (fun _ buffer hbuffer => ?_)
      fun rank _ hrank buffer hbuffer => ?_
  · rw [hlength]
    exact hblock rank _ rfl
  · rw [if_pos rfl]
    exact .keep (hlength me) (hblock me buffer hbuffer)
  · rw [if_neg hrank]
    exact .acceptInto rank "allgather" (hlength rank) (hblock rank buffer hbuffer)

/-- An allgatherv leaves every rank the blocks of all ranks where its layout puts them. -/
theorem together_allgatherv {sendCount : Fin n → Nat} {counts displs : Fin n → List Nat}
    (hcounts : ∀ me, n ≤ (counts me).length) (hdispls : ∀ me, n ≤ (displs me).length)
    (hmatch : ∀ me source : Fin n, entry (counts me) source = sendCount source)
    (hinputs : ∀ me, sendCount me * dtype.size ≤ (inputs me).length)
    (houtputs : ∀ me source : Fin n, entry (displs me) source * dtype.size +
      sendCount source * dtype.size ≤ (outputs me).length) :
    Together (fun me => allgatherv me (inputs me) (sendCount me) (counts me) (displs me) dtype)
      outputs (fun _ => .ok ()) fun me =>
        place (List.finRange n) (fun source => entry (displs me) source * dtype.size)
          (fun source => (inputs source).slice 0 (sendCount source * dtype.size)) (outputs me) := by
  have hinput (me : Fin n) : 0 + sendCount me * dtype.size ≤ (inputs me).length := by
    simpa using hinputs me
  refine together_all_to_all
    (fun source _ => (inputs source).slice 0 (sendCount source * dtype.size)) fun me => ?_
  refine .bind_lift (checkLayout_eq_ok (hcounts me) (hdispls me)) <|
    .bind_lift (span_eq_slice (hinput me)) <|
    .bind (.forM_posting fun dest _ => .deliver dest _) ?_
  refine @Performs.forM_placeBlock n dtype
    (fun source => (inputs source).slice 0 (sendCount source * dtype.size)) _ _ me "allgatherv" _
    (fun source => ?_) fun source => ?_
  · rw [Bytes.length_slice (hinput source), hmatch]
  · rw [hmatch]
    exact houtputs me source

/-- An allgatherv in place leaves every rank the blocks of the other ranks where its layout puts
them. -/
theorem together_allgathervInPlace {counts displs : Fin n → List Nat}
    (hcounts : ∀ me, n ≤ (counts me).length) (hdispls : ∀ me, n ≤ (displs me).length)
    (hmatch : ∀ me source : Fin n, entry (counts me) source = entry (counts source) source)
    (houtputs : ∀ me source : Fin n, entry (displs me) source * dtype.size +
      entry (counts me) source * dtype.size ≤ (outputs me).length) :
    Together (fun me => allgathervInPlace me (counts me) (displs me) dtype)
      outputs (fun _ => .ok ()) fun me =>
        place (peers me) (fun source => entry (displs me) source * dtype.size)
          (fun source => (outputs source).slice (entry (displs source) source * dtype.size)
            (entry (counts source) source * dtype.size)) (outputs me) := by
  have hlength (me source : Fin n) : ((outputs source).slice
      (entry (displs source) source * dtype.size)
      (entry (counts source) source * dtype.size)).length =
        entry (counts me) source * dtype.size := by
    rw [Bytes.length_slice (houtputs source source), hmatch me]
  refine together_all_to_all (fun source _ => (outputs source).slice
    (entry (displs source) source * dtype.size) (entry (counts source) source * dtype.size))
    fun me => ?_
  have hplacing := @Performs.forM_placing n (outputs me) me (peers me)
    (fun source => acceptInto source "allgatherv" (entry (displs me) source * dtype.size)
      (entry (counts me) source * dtype.size))
    (fun source => entry (displs me) source * dtype.size)
    (fun source => (outputs source).slice (entry (displs source) source * dtype.size)
      (entry (counts source) source * dtype.size))
    (fun source _ => (hlength me source).symm ▸ houtputs me source)
    (fun hme => absurd rfl (mem_peers.mp hme))
    fun source _ _ buffer hbuffer =>
      .acceptInto source "allgatherv" (hlength me source) (hbuffer ▸ houtputs me source)
  have hothers : ((peers me).filter fun rank => rank ≠ me) = peers me :=
    List.filter_eq_self.mpr fun rank hrank => by simpa using mem_peers.mp hrank
  rw [hothers] at hplacing
  exact .bind_lift (checkLayout_eq_ok (hcounts me) (hdispls me)) <| .bind_quiet .get <|
    .bind_lift (span_eq_slice (houtputs me me)) <|
    .bind (.forM_posting fun dest _ => .deliver dest _) hplacing

/-- When the blocks tile, an allgatherv in place leaves every rank the blocks of all ranks one
after another. -/
theorem together_allgathervInPlace_of_tiles {counts displs : List Nat} {start length : Nat → Nat}
    (htiles : Tiles n start length) (hcounts : n ≤ counts.length) (hdispls : n ≤ displs.length)
    (hlength : ∀ me : Fin n, entry counts me * dtype.size = length me)
    (hstart : ∀ me : Fin n, entry displs me * dtype.size = start me)
    (houtputs : ∀ me, start n ≤ (outputs me).length) :
    Together (fun me => allgathervInPlace me counts displs dtype) outputs (fun _ => .ok ())
      fun me => (outputs me).overwrite 0
        (concat fun source => (outputs source).slice (start source) (length source)) := by
  have hblock (me source : Fin n) := (htiles.stop_le source).trans (houtputs me)
  have htogether := @together_allgathervInPlace n outputs dtype (fun _ => counts) (fun _ => displs)
    (fun _ => hcounts) (fun _ => hdispls) (fun _ _ => rfl)
    fun me source => by rw [hstart, hlength]; exact hblock me source
  simp only [hlength, hstart] at htogether
  convert htogether using 2 with me
  exact (htiles.place_eq (fun source => Bytes.length_slice (hblock source source)) (houtputs me)
    (fun rank => rank ≠ me) fun rank hrank => by
      have hme : rank = me := by simpa using hrank
      rw [hme]).symm

/-- When only the root has a block, an allgatherv in place is a bcast. -/
theorem together_allgathervInPlace_single (root : Fin n)
    (houtputs : ∀ me, count * dtype.size ≤ (outputs me).length) :
    Together (fun me => allgathervInPlace me (Layout.singleCounts n root count)
        (Layout.singleDispls n root count) dtype) outputs (fun _ => .ok ()) fun me =>
      (outputs me).overwrite 0 ((outputs root).slice 0 (count * dtype.size)) := by
  have htiles := Layout.tiles_single n root count dtype.size
  have hend : (if n ≤ (root : Nat) then 0 else count) * dtype.size = count * dtype.size := by
    rw [if_neg (by omega)]
  have htogether := @together_allgathervInPlace_of_tiles n outputs dtype
    (Layout.singleCounts n root count) (Layout.singleDispls n root count) _ _ htiles
    (by simp [Layout.singleCounts]) (by simp [Layout.singleDispls])
    (fun me => congrArg (· * dtype.size) (Layout.getD_map_range _ me.isLt))
    (fun me => congrArg (· * dtype.size) (Layout.getD_map_range _ me.isLt))
    fun me => hend.trans_le (houtputs me)
  have hroot : ((outputs root).slice 0 (count * dtype.size)).length = count * dtype.size :=
    Bytes.length_slice_zero (houtputs root)
  rwa [← htiles.eq_concat (hroot.trans hend.symm) fun rank : Fin n => ?_] at htogether
  by_cases hrank : rank = root
  · subst hrank
    rw [if_pos rfl, if_pos le_rfl, Nat.zero_mul, Bytes.slice_slice _ (by omega)]
  · rw [if_neg (Fin.val_ne_of_ne hrank), Nat.zero_mul, Bytes.slice_zero, Bytes.slice_zero]

/-- An alltoall moves block `d` of every rank to rank `d`. -/
theorem together_alltoall (hinputs : ∀ me, n * (count * dtype.size) ≤ (inputs me).length)
    (houtputs : ∀ me, n * (count * dtype.size) ≤ (outputs me).length) :
    Together (fun me => alltoall me (inputs me) count dtype) outputs (fun _ => .ok ()) fun me =>
      (outputs me).overwrite 0 (concat fun source =>
        (inputs source).slice (me * (count * dtype.size)) (count * dtype.size)) := by
  have htiles := Bytes.tiles_uniform n (count * dtype.size)
  have hinput (source me : Fin n) :
      me * (count * dtype.size) + count * dtype.size ≤ (inputs source).length :=
    (htiles.stop_le me).trans (hinputs source)
  have hlength (source me : Fin n) :
      ((inputs source).slice (me * (count * dtype.size)) (count * dtype.size)).length =
        count * dtype.size :=
    Bytes.length_slice (hinput source me)
  refine together_all_to_all (fun source dest =>
    (inputs source).slice (dest * (count * dtype.size)) (count * dtype.size)) fun me => ?_
  have hblock (rank : Fin n) (buffer : Bytes) (hbuffer : buffer.length = (outputs me).length) :
      rank * (count * dtype.size) + count * dtype.size ≤ buffer.length :=
    (htiles.stop_le rank).trans (hbuffer ▸ houtputs me)
  rw [← htiles.place_finRange (fun source => hlength source me) (houtputs me)]
  refine .bind (.forM_posting fun dest _ =>
    .bind_lift (span_eq_slice (hinput me dest)) (.deliver dest _)) <|
    .forM_placing me (fun rank _ => ?_) (fun _ buffer hbuffer => ?_)
      fun rank _ hrank buffer hbuffer => ?_
  · rw [hlength]
    exact hblock rank _ rfl
  · rw [if_pos rfl]
    exact .bind_quiet (.checkOutput (hblock me buffer hbuffer)) <|
      .bind_lift (span_eq_slice (hinput me me)) <|
      .keep (hlength me me) (hblock me buffer hbuffer)
  · rw [if_neg hrank]
    exact .acceptInto rank "alltoall" (hlength rank me) (hblock rank buffer hbuffer)

/-- An alltoallv moves the blocks of the senders' layouts to where the receivers' layouts put
them. -/
theorem together_alltoallv {sendCounts sendDispls receiveCounts receiveDispls : Fin n → List Nat}
    (hsendCounts : ∀ me, n ≤ (sendCounts me).length)
    (hsendDispls : ∀ me, n ≤ (sendDispls me).length)
    (hreceiveCounts : ∀ me, n ≤ (receiveCounts me).length)
    (hreceiveDispls : ∀ me, n ≤ (receiveDispls me).length)
    (hmatch : ∀ source me : Fin n, entry (sendCounts source) me = entry (receiveCounts me) source)
    (hinputs : ∀ source me : Fin n, entry (sendDispls source) me * dtype.size +
      entry (sendCounts source) me * dtype.size ≤ (inputs source).length)
    (houtputs : ∀ me source : Fin n, entry (receiveDispls me) source * dtype.size +
      entry (receiveCounts me) source * dtype.size ≤ (outputs me).length) :
    Together (fun me => alltoallv me (inputs me) (sendCounts me) (sendDispls me) (receiveCounts me)
        (receiveDispls me) dtype) outputs (fun _ => .ok ()) fun me =>
      place (List.finRange n) (fun source => entry (receiveDispls me) source * dtype.size)
        (fun source => (inputs source).slice (entry (sendDispls source) me * dtype.size)
          (entry (sendCounts source) me * dtype.size)) (outputs me) := by
  have hlength (source me : Fin n) :
      ((inputs source).slice (entry (sendDispls source) me * dtype.size)
        (entry (sendCounts source) me * dtype.size)).length =
          entry (receiveCounts me) source * dtype.size := by
    rw [Bytes.length_slice (hinputs source me), hmatch]
  refine together_all_to_all (fun source dest =>
    (inputs source).slice (entry (sendDispls source) dest * dtype.size)
      (entry (sendCounts source) dest * dtype.size)) fun me => ?_
  refine .bind_lift (checkLayout_eq_ok (hsendCounts me) (hsendDispls me)) <|
    .bind_lift (checkLayout_eq_ok (hreceiveCounts me) (hreceiveDispls me)) <|
    .bind (.forM_posting fun dest _ =>
      .bind_lift (span_eq_slice (hinputs me dest)) (.deliver dest _)) <|
    .forM_placing me (fun rank _ => ?_) (fun _ buffer hbuffer => ?_)
      fun rank _ hrank buffer hbuffer => ?_
  · rw [hlength]
    exact houtputs me rank
  · dsimp only
    rw [if_pos rfl]
    exact .bind_quiet (.checkOutput (hbuffer ▸ houtputs me me)) <|
      .bind_lift (span_eq_slice (hinputs me me)) <|
      .keep (hlength me me) (hbuffer ▸ houtputs me me)
  · dsimp only
    rw [if_neg hrank]
    exact .acceptInto rank "alltoallv" (hlength rank me) (hbuffer ▸ houtputs me rank)

/-! ### Blocks of one vector -/

section Blocks

variable {vector : Bytes} (hvector : vector.length = n * (count * dtype.size))

include hvector

/-- A scatter of a vector leaves every rank its block, in a buffer with room for just that. -/
theorem together_scatter_blocks (root : Fin n) (hroot : inputs root = vector)
    (houtputs : ∀ me, (outputs me).length = count * dtype.size) :
    Together (fun me => scatter me (inputs me) count dtype root) outputs (fun _ => .ok ()) fun me =>
      vector.slice (me * (count * dtype.size)) (count * dtype.size) := by
  have hscatter := @together_scatter n inputs outputs count dtype root
    (by rw [hroot, hvector]) fun me => (houtputs me).ge
  have hblock (me : Fin n) := Bytes.length_block hvector.ge me
  simpa only [hroot, fun me : Fin n => Bytes.overwrite_zero_of_length
    ((hblock me).trans (houtputs me).symm)] using hscatter

/-- An allgather of the blocks of a vector leaves every rank the vector. -/
theorem together_allgather_blocks (houtputs : ∀ me, (outputs me).length = vector.length) :
    Together (fun me => allgather me
        (vector.slice (me * (count * dtype.size)) (count * dtype.size)) count dtype)
      outputs (fun _ => .ok ()) fun _ => vector := by
  have hallgather := @together_allgather n
    (fun me => vector.slice (me * (count * dtype.size)) (count * dtype.size)) outputs count dtype
    (fun me => (Bytes.length_block hvector.ge me).ge)
    fun me => (hvector.symm.trans (houtputs me).symm).le
  simpa only [Bytes.concat_blocks hvector,
    fun me => Bytes.overwrite_zero_of_length (houtputs me).symm] using hallgather

end Blocks

/-! ### Layouts of equal blocks -/

/-- With equal counts, each rank has that count. -/
@[simp] theorem entry_equalCounts (me : Fin n) : entry (Layout.equalCounts n count) me = count :=
  Layout.getD_map_range _ me.isLt

/-- With equal counts, each rank's block starts behind those of the lower ranks. -/
@[simp] theorem entry_equalDispls (me : Fin n) :
    entry (Layout.equalDispls n count) me = me * count :=
  Layout.getD_map_range _ me.isLt

/-- Equal blocks placed one by one are placed one after another. -/
theorem place_equalDispls {block : Fin n → Bytes} {buffer : Bytes}
    (hlength : ∀ me, (block me).length = count * dtype.size)
    (hbuffer : n * (count * dtype.size) ≤ buffer.length) :
    place (List.finRange n) (fun source => entry (Layout.equalDispls n count) source * dtype.size)
      block buffer = buffer.overwrite 0 (concat block) := by
  simp only [entry_equalDispls, Nat.mul_assoc]
  exact (Bytes.tiles_uniform n _).place_finRange hlength hbuffer

/-- Equal blocks lie in a buffer that has room for all of them. -/
theorem equalDispls_stop_le (me : Fin n) {buffer : Bytes}
    (hbuffer : n * (count * dtype.size) ≤ buffer.length) :
    entry (Layout.equalDispls n count) me * dtype.size + count * dtype.size ≤ buffer.length := by
  rw [entry_equalDispls, Nat.mul_assoc]
  exact ((Bytes.tiles_uniform n _).stop_le me).trans hbuffer

/-- With equal blocks an allgatherv is an allgather. -/
theorem together_allgatherv_equal (hinputs : ∀ me, count * dtype.size ≤ (inputs me).length)
    (houtputs : ∀ me, n * (count * dtype.size) ≤ (outputs me).length) :
    Together (fun me => allgatherv me (inputs me) count (Layout.equalCounts n count)
        (Layout.equalDispls n count) dtype) outputs (fun _ => .ok ()) fun me =>
      (outputs me).overwrite 0
        (concat fun source => (inputs source).slice 0 (count * dtype.size)) := by
  have htogether := @together_allgatherv n inputs outputs dtype (fun _ => count)
    (fun _ => Layout.equalCounts n count) (fun _ => Layout.equalDispls n count) (by simp) (by simp)
    (by simp) hinputs fun me source => equalDispls_stop_le source (houtputs me)
  have hlength (source : Fin n) :
      ((inputs source).slice 0 (count * dtype.size)).length = count * dtype.size :=
    Bytes.length_slice_zero (hinputs source)
  simpa only [fun me => place_equalDispls hlength (houtputs me)] using htogether

/-- With equal blocks a gatherv is a gather. -/
theorem together_gatherv_equal (root : Fin n)
    (hinputs : ∀ me, count * dtype.size ≤ (inputs me).length)
    (houtput : n * (count * dtype.size) ≤ (outputs root).length) :
    Together (fun me => gatherv me (inputs me) count (Layout.equalCounts n count)
        (Layout.equalDispls n count) dtype root) outputs (fun _ => .ok ()) fun me =>
      if me = root then
        (outputs me).overwrite 0 (concat fun source => (inputs source).slice 0 (count * dtype.size))
      else outputs me := by
  have htogether := @together_gatherv n inputs outputs dtype (fun _ => count)
    (fun _ => Layout.equalCounts n count) (fun _ => Layout.equalDispls n count) root (by simp)
    (by simp) (by simp) hinputs fun source => equalDispls_stop_le source houtput
  convert htogether using 2 with me
  split
  · next hme =>
    subst hme
    exact (place_equalDispls (fun source => Bytes.length_slice_zero (hinputs source))
      houtput).symm
  · rfl

/-- With equal blocks a scatterv is a scatter. -/
theorem together_scatterv_equal (root : Fin n)
    (hinput : n * (count * dtype.size) ≤ (inputs root).length)
    (houtputs : ∀ me, count * dtype.size ≤ (outputs me).length) :
    Together (fun me => scatterv me (inputs me) (Layout.equalCounts n count)
        (Layout.equalDispls n count) count dtype root) outputs (fun _ => .ok ()) fun me =>
      (outputs me).overwrite 0
        ((inputs root).slice (me * (count * dtype.size)) (count * dtype.size)) := by
  have htogether := @together_scatterv n inputs outputs dtype (fun _ => Layout.equalCounts n count)
    (fun _ => Layout.equalDispls n count) (fun _ => count) root (by simp) (by simp) (by simp)
    (fun me => equalDispls_stop_le me hinput) houtputs
  simpa only [entry_equalDispls, Nat.mul_assoc] using htogether

/-- With equal blocks an alltoallv is an alltoall. -/
theorem together_alltoallv_equal (hinputs : ∀ me, n * (count * dtype.size) ≤ (inputs me).length)
    (houtputs : ∀ me, n * (count * dtype.size) ≤ (outputs me).length) :
    Together (fun me => alltoallv me (inputs me) (Layout.equalCounts n count)
        (Layout.equalDispls n count) (Layout.equalCounts n count) (Layout.equalDispls n count)
        dtype) outputs (fun _ => .ok ()) fun me =>
        (outputs me).overwrite 0 (concat fun source =>
          (inputs source).slice (me * (count * dtype.size)) (count * dtype.size)) := by
  have hblock (source me : Fin n) := equalDispls_stop_le me (hinputs source)
  have htogether := @together_alltoallv n inputs outputs dtype (fun _ => Layout.equalCounts n count)
    (fun _ => Layout.equalDispls n count) (fun _ => Layout.equalCounts n count)
    (fun _ => Layout.equalDispls n count) (by simp) (by simp) (by simp) (by simp) (by simp)
    (fun source me => by rw [entry_equalCounts]; exact hblock source me)
    fun me source => by rw [entry_equalCounts]; exact equalDispls_stop_le source (houtputs me)
  simp only [entry_equalCounts] at htogether
  convert htogether using 2 with me
  rw [place_equalDispls (fun source => Bytes.length_slice (hblock source me)) (houtputs me)]
  simp only [entry_equalDispls, Nat.mul_assoc]

end CollectiveTuner.Native
