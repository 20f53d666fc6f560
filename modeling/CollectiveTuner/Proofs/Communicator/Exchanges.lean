import CollectiveTuner.Communicator.Native
import CollectiveTuner.Proofs.Reduction.Merge
import CollectiveTuner.Proofs.Transport.Completion

/-!
# What one rank does in an exchange

`Performs` relates a part of a native operation to the history of the rank, the result and the
buffer that it leaves. There is one rule for each way of putting parts together and one for
each use of a channel, so that the history of an operation is read off its definition.
-/

namespace CollectiveTuner.Native

open Transport
open Bytes (place)

variable {n : Nat} {α β : Type}

/-- Run on a buffer, the exchange goes through the history, ends with the result and leaves the
buffer as `after`. -/
def Performs (exchange : Exchange n α) (before : Bytes) (history : History n)
    (result : Except Error α) (after : Bytes) : Prop :=
  (exchange.run.run before).Follows history (.done (result, after))

namespace Performs

variable {before middle after : Bytes} {history later : History n}

/-- A value is given without exchanging anything. -/
theorem pure (value : α) : Performs (pure value : Exchange n α) before [] (.ok value) before :=
  .nil _

/-- The buffer is looked at without exchanging anything. -/
theorem get : Performs (get : Exchange n Bytes) before [] (.ok before) before :=
  .nil _

/-- The buffer is changed without exchanging anything. -/
theorem modify (change : Bytes → Bytes) :
    Performs (modify change : Exchange n Unit) before [] (.ok ()) (change before) :=
  .nil _

/-- A check takes part in no communication. -/
theorem lift (result : Except Error α) :
    Performs (liftM result : Exchange n α) before [] result before := by
  cases result <;> exact .nil _

variable {first : Exchange n α} {next : α → Exchange n β} {value : α} {result : Except Error β}

/-- What two parts in sequence exchange comes one after the other. -/
theorem bind (hfirst : Performs first before history (.ok value) middle)
    (hnext : Performs (next value) middle later result after) :
    Performs (first >>= next) before (history ++ later) result after :=
  Program.Follows.bind_done hfirst hnext

/-- A part without communication comes first. -/
theorem bind_quiet (hfirst : Performs first before [] (.ok value) middle)
    (hnext : Performs (next value) middle later result after) :
    Performs (first >>= next) before later result after :=
  hfirst.bind hnext

/-- The error of the first part is the error of the whole. -/
theorem bind_error {error : Error} (hfirst : Performs first before history (.error error) after) :
    Performs (first >>= next) before history (.error error) after := by
  have hend : Performs (first >>= next) before (history ++ []) (.error error) after :=
    Program.Follows.bind_done hfirst (.nil _)
  rwa [List.append_nil] at hend

/-- A check that passes comes first. -/
theorem bind_lift {checked : Except Error α} (hchecked : checked = .ok value)
    (hnext : Performs (next value) before later result after) :
    Performs (liftM checked >>= next) before later result after :=
  bind_quiet (hchecked ▸ lift checked) hnext

/-- A check that fails ends the exchange there. -/
theorem bind_lift_error {checked : Except Error α} {error : Error}
    (hchecked : checked = .error error) :
    Performs (liftM checked >>= next) before [] (.error error) before :=
  bind_error (hchecked ▸ lift checked)

/-! ### Channels -/

/-- Sending one message is all that a delivery exchanges. -/
theorem deliver (dest : Fin n) (message : Bytes) :
    Performs (deliver dest message) before (posting [(dest, message)]) (.ok ()) before :=
  .cons (.nil _)

/-- Taking one message is all that an acceptance exchanges. -/
theorem accept (source : Fin n) (operation : String) (message : Bytes) :
    Performs (accept source operation) before (taking [(source, message)]) (.ok message) before :=
  .cons (.nil _)

/-- Checking a block that fits exchanges nothing and succeeds. -/
theorem checkOutput {start length : Nat} (hblock : start + length ≤ before.length) :
    Performs (checkOutput start length : Exchange n Unit) before [] (.ok ()) before := by
  have hcheck : Bytes.checkBlock (List.length before) start length = .ok () := by
    rw [Bytes.checkBlock, if_pos hblock]
    rfl
  exact bind_quiet get (hcheck ▸ lift _)

/-- Storing a block writes it into the buffer without exchanging anything. -/
theorem store {start length : Nat} {block : Bytes} (hlength : block.length = length) :
    Performs (store start length block : Exchange n Unit) before [] (.ok ())
      (before.overwrite start block) := by
  rw [Native.store, if_neg (not_not.mpr hlength)]
  exact modify _

/-- Keeping a block that fits writes it, since its check passes. -/
theorem keep {start length : Nat} {block : Bytes} (hlength : block.length = length)
    (hblock : start + length ≤ before.length) :
    Performs (keep start length block : Exchange n Unit) before [] (.ok ())
      (before.overwrite start block) :=
  bind_quiet (checkOutput hblock) (store hlength)

/-- Accepting a message of the expected length takes it and writes it. -/
theorem acceptInto (source : Fin n) (operation : String) {start length : Nat} {message : Bytes}
    (hlength : message.length = length) (hblock : start + length ≤ before.length) :
    Performs (acceptInto source operation start length) before (taking [(source, message)]) (.ok ())
      (before.overwrite start message) :=
  bind_quiet (checkOutput hblock) ((accept source operation message).bind (store hlength))

/-! ### Loops over ranks -/

/-- A loop over ranks goes through the history of each rank in turn. -/
theorem forM {ranks : List (Fin n)} {body : Fin n → Exchange n Unit}
    {step : Fin n → Bytes → Bytes} {histories : Fin n → History n}
    (hbody : ∀ rank ∈ ranks, ∀ buffer, buffer.length = before.length →
      Performs (body rank) buffer (histories rank) (.ok ()) (step rank buffer) ∧
        (step rank buffer).length = before.length) :
    Performs (ranks.forM body) before (ranks.flatMap histories) (.ok ())
      (ranks.foldl (fun buffer rank => step rank buffer) before) := by
  induction ranks generalizing before with
  | nil => exact .nil _
  | cons first rest ih =>
    obtain ⟨hfirst, hlength⟩ := hbody first (by simp) before rfl
    refine bind hfirst (ih fun rank hrank buffer hbuffer => ?_)
    rw [hlength] at hbuffer ⊢
    exact hbody rank (by simp [hrank]) buffer hbuffer

/-- A loop that sends one message to each of some ranks. -/
theorem forM_posting {ranks : List (Fin n)} {body : Fin n → Exchange n Unit}
    {message : Fin n → Bytes}
    (hbody : ∀ rank ∈ ranks, Performs (body rank) before (posting [(rank, message rank)]) (.ok ())
      before) :
    Performs (ranks.forM body) before (posting (ranks.map fun rank => (rank, message rank)))
      (.ok ()) before := by
  induction ranks with
  | nil => exact .nil _
  | cons first rest ih =>
    exact bind (hbody first (by simp)) (ih fun rank hrank => hbody rank (by simp [hrank]))

/-- A loop that puts a block of each of some ranks into the buffer: this rank's own, and those of
the others as they arrive. -/
theorem forM_placing (me : Fin n) {ranks : List (Fin n)} {body : Fin n → Exchange n Unit}
    {start : Fin n → Nat} {block : Fin n → Bytes}
    (hblock : ∀ rank ∈ ranks, start rank + (block rank).length ≤ before.length)
    (hown : me ∈ ranks → ∀ buffer, buffer.length = before.length →
      Performs (body me) buffer [] (.ok ()) (buffer.overwrite (start me) (block me)))
    (hothers : ∀ rank ∈ ranks, rank ≠ me → ∀ buffer, buffer.length = before.length →
      Performs (body rank) buffer (taking [(rank, block rank)]) (.ok ())
        (buffer.overwrite (start rank) (block rank))) :
    Performs (ranks.forM body) before
      (taking ((ranks.filter fun rank => rank ≠ me).map fun rank => (rank, block rank))) (.ok ())
      (place ranks start block before) := by
  have hhistory : taking ((ranks.filter fun rank => rank ≠ me).map fun rank => (rank, block rank)) =
      ranks.flatMap fun rank => if rank = me then [] else taking [(rank, block rank)] := by
    clear hblock hown hothers
    induction ranks with
    | nil => rfl
    | cons first rest ih =>
      rw [List.flatMap_cons, ← ih]
      by_cases hfirst : first = me <;> simp [hfirst, taking]
  rw [hhistory]
  refine @forM n before ranks body
    (fun rank buffer => buffer.overwrite (start rank) (block rank)) _
    fun rank hrank buffer hbuffer => ?_
  have hlength := Bytes.length_overwrite (hbuffer.symm ▸ hblock rank hrank)
  refine ⟨?_, hlength.trans hbuffer⟩
  by_cases hme : rank = me
  · subst hme
    rw [if_pos rfl]
    exact hown hrank buffer hbuffer
  · rw [if_neg hme]
    exact hothers rank hrank hme buffer hbuffer

/-- A loop that sends each rank its message and carries this rank's own part out in turn. -/
theorem forM_dealing {me : Fin n} {ranks : List (Fin n)} {body : Fin n → Exchange n Unit}
    {message : Fin n → Bytes} (hnodup : ranks.Nodup) (hme : me ∈ ranks)
    (hown : Performs (body me) before [] (.ok ()) after)
    (hothers : ∀ rank, rank ≠ me → ∀ buffer,
      Performs (body rank) buffer (posting [(rank, message rank)]) (.ok ()) buffer) :
    Performs (ranks.forM body) before
      (posting ((ranks.filter fun rank => rank ≠ me).map fun rank => (rank, message rank))) (.ok ())
      after := by
  induction ranks with
  | nil => cases hme
  | cons first rest ih =>
    obtain ⟨hfirst, hrest⟩ := List.nodup_cons.mp hnodup
    by_cases heq : first = me
    · subst heq
      have hne : ∀ rank ∈ rest, rank ≠ first := fun rank hrank h => hfirst (h ▸ hrank)
      have hfilter : (rest.filter fun rank => rank ≠ first) = rest :=
        List.filter_eq_self.mpr fun rank hrank => by simpa using hne rank hrank
      rw [List.filter_cons_of_neg (by simp), hfilter]
      exact bind_quiet hown
        (forM_posting fun rank hrank => hothers rank (hne rank hrank) after)
    · have hme : me ∈ rest := by simpa [Ne.symm heq] using hme
      rw [List.filter_cons_of_pos (by simpa using heq)]
      exact bind (hothers first heq before) (ih hrest hme)

/-! ### Folds -/

/-- A contribution is joined to what has been folded before. -/
theorem join {arithmetic : FloatArithmetic} {dtype : Datatype} {op : ReduceOp} {count : Nat}
    {folded : Option Bytes} {contribution : Bytes} {next : Bytes → Exchange n β}
    (hsupported : Reduction.Supported dtype op)
    (hfolded : ∀ block ∈ folded, block.length = count * dtype.size)
    (hlength : contribution.length = count * dtype.size)
    (hnext : ∀ block, Reduction.join arithmetic dtype op count folded contribution = some block →
      block.length = count * dtype.size → Performs (next block) before history result after) :
    Performs
      (match folded with
      | none => Pure.pure contribution >>= next
      | some folded =>
        liftM (Reduction.accumulate arithmetic dtype op count folded contribution) >>= next)
      before history result after := by
  cases folded with
  | none => exact bind_quiet (pure _) (hnext contribution rfl hlength)
  | some block =>
    have hblock := hfolded block rfl
    exact bind_lift (Reduction.accumulate_eq_ok hsupported hblock.ge hlength.ge)
      (hnext _ rfl ((Reduction.length_merge _ hblock.ge).trans hblock))

/-- A fold takes the contribution of each source but this rank and joins all of them. -/
theorem fold (arithmetic : FloatArithmetic) (me : Fin n) {contribution : Fin n → Bytes}
    {count : Nat} {dtype : Datatype} {op : ReduceOp} (operation : String) {sources : List (Fin n)}
    {folded : Option Bytes} (hsupported : Reduction.Supported dtype op)
    (hlength : ∀ source, (contribution source).length = count * dtype.size)
    (hfolded : ∀ block ∈ folded, block.length = count * dtype.size) :
    Performs (fold arithmetic me (contribution me) count dtype op operation sources folded) before
      (taking ((sources.filter fun rank => rank ≠ me).map fun rank => (rank, contribution rank)))
      (.ok ((sources.map contribution).foldl (Reduction.join arithmetic dtype op count) folded))
      before := by
  induction sources generalizing folded with
  | nil => exact .nil _
  | cons source rest ih =>
    have hjoin := @join n (Option Bytes) before before
      (taking ((rest.filter fun rank => rank ≠ me).map fun rank => (rank, contribution rank)))
      (.ok (((source :: rest).map contribution).foldl (Reduction.join arithmetic dtype op count)
        folded)) arithmetic dtype op count folded (contribution source)
      (fun folded => Native.fold arithmetic me (contribution me) count dtype op operation rest
        (some folded)) hsupported hfolded (hlength source) fun block hblock hlength => by
          rw [List.map_cons, List.foldl_cons, hblock]
          exact ih fun _ hmem => Option.mem_some.mp hmem ▸ hlength
    by_cases hme : source = me
    · subst hme
      rw [List.filter_cons_of_neg (by simp), Native.fold, if_pos rfl]
      exact bind_quiet (pure _) hjoin
    · have hsame : ¬ List.length (contribution source) ≠ List.length (contribution me) :=
        not_not.mpr ((hlength source).trans (hlength me).symm)
      have haccept : Performs (Native.accept source operation) before
          (taking [(source, contribution source)]) (.ok (contribution source)) before :=
        accept source operation _
      rw [List.filter_cons_of_pos (by simpa using hme), Native.fold, if_neg hme]
      refine haccept.bind ?_
      rw [if_neg hsame]
      exact bind_quiet (pure _) hjoin

end Performs

end CollectiveTuner.Native
