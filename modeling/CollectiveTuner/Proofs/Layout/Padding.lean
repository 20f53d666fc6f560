import CollectiveTuner.Layout.Machine
import CollectiveTuner.Proofs.Communicator.Movement

/-!
# Padding

A vector is padded to a whole number of elements for each part. The padding is written in the
buffer that it is read from, one element after another, and none of these writes leaves the buffer
or reaches the vector. Cut into one block for each rank, and put together again, the padded vector
is what it was.
-/

namespace CollectiveTuner

open Native Transport

namespace Layout

/-! ### The padded count -/

/-- The padded count is the least multiple that is large enough. -/
theorem isLeast_paddedCount {parts : Nat} (hparts : 0 < parts) (count : Nat) :
    IsLeast {multiple | parts ∣ multiple ∧ count ≤ multiple} (paddedCount count parts) := by
  have hblocks := mul_div_paddedCount hparts count
  refine ⟨⟨Dvd.intro _ hblocks, le_paddedCount count parts⟩, ?_⟩
  rintro multiple ⟨⟨blocks, rfl⟩, hcount⟩
  have hlt := paddedCount_lt hparts count
  by_contra hless
  -- A smaller multiple lies a whole number of parts below, and that is below the count.
  have hfewer : blocks < paddedCount count parts / parts := by
    apply Nat.lt_of_mul_lt_mul_left (a := parts)
    omega
  have hstep : parts * (blocks + 1) ≤ parts * (paddedCount count parts / parts) :=
    Nat.mul_le_mul_left parts hfewer
  rw [Nat.mul_succ] at hstep
  omega

/-! ### Padding in place -/

section InPlace

variable {buffer : Bytes} {count extent : Nat}

/-- With so many elements padded, the next copy is written behind them. It is read from the first
element, which has not been overwritten, and lies in the buffer if there is room for one more. -/
theorem copyFirst_overwrite_copies (hcount : 0 < count) {number : Nat}
    (hroom : (count + (number + 1)) * extent ≤ buffer.length) :
    (buffer.overwrite (count * extent) (copies buffer extent number)).copyFirst extent
        ((count + number) * extent) =
      some (buffer.overwrite (count * extent) (copies buffer extent (number + 1))) := by
  have hvector : 1 * extent ≤ count * extent := Nat.mul_le_mul_right extent hcount
  have hstop : (count + (number + 1)) * extent = count * extent + number * extent + extent := by
    ring
  have hcopies := length_copies (by omega : extent ≤ buffer.length) number
  have hlength : (buffer.overwrite (count * extent) (copies buffer extent number)).length =
      buffer.length :=
    Bytes.length_overwrite (by omega)
  have hfirst : (buffer.overwrite (count * extent) (copies buffer extent number)).take extent =
      buffer.take extent := by
    rw [← Bytes.slice_start, ← Bytes.slice_start]
    exact Bytes.slice_overwrite_of_disjoint (by omega) (.inl (by omega))
  have htarget : (count + number) * extent =
      count * extent + (copies buffer extent number).length := by
    rw [hcopies, Nat.add_mul]
  rw [Bytes.copyFirst, if_pos (by rw [hlength]; constructor <;> omega), hfirst, htarget,
    Bytes.overwrite_append _ _ (by omega), copies_succ]

/-- The loop invariant: so many copies have been written behind the vector. -/
theorem foldlM_copyFirst (hcount : 0 < count) {number : Nat}
    (hroom : (count + number) * extent ≤ buffer.length) :
    (List.range' count number).foldlM
        (fun buffer i => buffer.copyFirst extent (i * extent)) buffer =
      some (buffer.overwrite (count * extent) (copies buffer extent number)) := by
  induction number with
  | zero => simp [copies]
  | succ number ih =>
    have hless : (count + number) * extent ≤ (count + (number + 1)) * extent :=
      Nat.mul_le_mul_right extent (by omega)
    rw [List.range'_1_concat, List.foldlM_append, ih (by omega), Option.bind_eq_bind,
      Option.bind_some, List.foldlM_cons, copyFirst_overwrite_copies hcount hroom]
    rfl

/-- Padding in place comes to the padded buffer, and never leaves the buffer on the way. -/
theorem padInPlace_eq_some {padded : Nat} (hcount : count ≤ padded)
    (hbuffer : buffer.length = padded * extent) :
    padInPlace count padded extent buffer = some (padWithFirst buffer count padded extent) := by
  by_cases hzero : count = 0
  · rw [padInPlace, padWithFirst, if_pos hzero, if_pos hzero]
  · obtain ⟨number, rfl⟩ := Nat.exists_eq_add_of_le hcount
    have hpositive : 0 < count := by omega
    obtain ⟨-, hextent, -⟩ := copies_stop hpositive hbuffer
    rw [padInPlace, if_neg hzero, Nat.add_sub_cancel_left,
      foldlM_copyFirst hpositive hbuffer.ge, padWithFirst_eq_overwrite hpositive hextent]

end InPlace

/-! ### Padded buffers -/

/-- What becomes of a buffer when its vector of `count` elements is padded: the vector stays, and
the elements behind it are copies of its first one. Without elements nothing changes. -/
structure Padded (count padded extent : Nat) (before after : Bytes) : Prop where
  length : after.length = before.length
  vector : after.take (count * extent) = before.take (count * extent)
  copied : 0 < count → ∀ i, count ≤ i → i < padded →
    after.slice (i * extent) extent = before.slice 0 extent
  unchanged : count = 0 → after = before

section Padded

variable {buffer : Bytes} {count padded extent : Nat}

/-- An element behind the vector is a copy of the first one. -/
theorem slice_padWithFirst (hcount : 0 < count) (hbuffer : buffer.length = padded * extent)
    {i : Nat} (hi : count ≤ i) (hpadded : i < padded) :
    (padWithFirst buffer count padded extent).slice (i * extent) extent =
      buffer.slice 0 extent := by
  obtain ⟨number, rfl⟩ := Nat.exists_eq_add_of_le (hi.trans hpadded.le)
  obtain ⟨hvector, hextent, hstop⟩ := copies_stop hcount hbuffer
  have hcopy : (copies buffer extent number).slice ((i - count) * extent) extent =
      buffer.take extent :=
    Bytes.slice_flatten_replicate (List.length_take_of_le hextent)
      (⟨i - count, by omega⟩ : Fin number)
  have hstart : i * extent = count * extent + (i - count) * extent := by
    rw [← Nat.add_mul, Nat.add_sub_cancel' hi]
  have hlast : (i - count) * extent + extent ≤ (copies buffer extent number).length := by
    rw [length_copies hextent, ← Nat.succ_mul]
    exact Nat.mul_le_mul_right extent (by omega)
  rw [padWithFirst_eq_overwrite hcount hextent, hstart, ← Bytes.slice_slice _ hlast,
    Bytes.slice_overwrite (by omega), hcopy, Bytes.slice_start]

/-- A buffer of as many elements as padded is padded by copies of its first one. -/
theorem padded_padWithFirst (hcount : count ≤ padded) (hbuffer : buffer.length = padded * extent) :
    Padded count padded extent buffer (padWithFirst buffer count padded extent) where
  length := (length_padWithFirst hcount hbuffer).trans hbuffer.symm
  vector := take_padWithFirst hcount hbuffer
  copied hpositive _ hi hpadded := slice_padWithFirst hpositive hbuffer hi hpadded
  unchanged hzero := by rw [padWithFirst, if_pos hzero]

end Padded

/-- The sum for the padded count has a result exactly if the padded count is a word. -/
theorem paddedCountInWords_eq_some_iff (count parts : Nat) :
    paddedCountInWords count parts = some (paddedCount count parts) ↔
      paddedCount count parts < UInt64.size := by
  unfold paddedCountInWords inWord paddedCount
  split <;> simp_all

/-- The padded count is a word if the padded buffer has a length that is one. -/
theorem paddedCountInWords_eq_some {buffer : Bytes} {count parts extent : Nat}
    (hextent : 0 < extent) (hbuffer : buffer.length = paddedCount count parts * extent)
    (hword : buffer.length < UInt64.size) :
    paddedCountInWords count parts = some (paddedCount count parts) := by
  have hle : paddedCount count parts * 1 ≤ paddedCount count parts * extent :=
    Nat.mul_le_mul_left _ hextent
  exact (paddedCountInWords_eq_some_iff count parts).mpr (by omega)

/-! ### Padded vectors in blocks -/

/-- **A padded vector survives being moved in blocks.** The padded count is the least multiple of
the number of parts that is large enough, and the sum for it has a result exactly if it is a word,
as it is whenever the buffer for so many elements can have its length in a word.

In a buffer of so many elements, padding in place writes nowhere else. It leaves the vector as it
was, makes every element behind it a copy of the first one, and changes nothing if there is no
first one. Cut into one block for each part and put together in their order, the buffer is what it
was, and begins with the vector. The ranks of a group do just that, whatever the schedule: a
scatter from any rank that holds the padded vector gives block `i` to rank `i`, and an allgather of
the blocks leaves the padded vector with every rank. -/
theorem padding_survives_blocks {parts : Nat} (hparts : 0 < parts) (count extent : Nat) :
    IsLeast {multiple | parts ∣ multiple ∧ count ≤ multiple} (paddedCount count parts) ∧
      (paddedCountInWords count parts = some (paddedCount count parts) ↔
        paddedCount count parts < UInt64.size) ∧
      ∀ buffer : Bytes, buffer.length = paddedCount count parts * extent →
        let padded := paddedCount count parts
        let size := padded / parts * extent
        (0 < extent → buffer.length < UInt64.size →
          paddedCountInWords count parts = some padded) ∧
          ∃ filled : Bytes,
            padInPlace count padded extent buffer = some filled ∧
            padWithFirst buffer count padded extent = filled ∧
            Padded count padded extent buffer filled ∧
            (∀ i : Fin parts, (filled.slice (i * size) size).length = size) ∧
            (Bytes.concat fun i : Fin parts => filled.slice (i * size) size) = filled ∧
            (Bytes.concat fun i : Fin parts => filled.slice (i * size) size).take
              (count * extent) = buffer.take (count * extent) ∧
            ∀ (arithmetic : FloatArithmetic) (dtype : Datatype) (root : Fin parts)
              (inputs blocks wholes : Fin parts → Bytes), dtype.size = extent →
              inputs root = filled → (∀ me, (blocks me).length = size) →
              (∀ me, (wholes me).length = filled.length) →
                Settles (fun me => answer arithmetic me
                    ⟨.scatter (padded / parts) dtype root, inputs me, blocks me⟩)
                  (fun me => ⟨.ok (), filled.slice (me * size) size⟩) ∧
                Settles (fun me => answer arithmetic me
                    ⟨.allgather (padded / parts) dtype, filled.slice (me * size) size, wholes me⟩)
                  fun _ => ⟨.ok (), filled⟩ := by
  refine ⟨isLeast_paddedCount hparts count, paddedCountInWords_eq_some_iff count parts,
    fun buffer hbuffer => ?_⟩
  intro padded size
  refine ⟨fun hextent hword => paddedCountInWords_eq_some hextent hbuffer hword, ?_⟩
  have hcount := le_paddedCount count parts
  have hpadded := padded_padWithFirst hcount hbuffer
  have hvector : (padWithFirst buffer count padded extent).length = parts * size := by
    rw [hpadded.length, hbuffer, ← Nat.mul_assoc, mul_div_paddedCount hparts]
  have hblocks : (Bytes.concat fun i : Fin parts =>
      (padWithFirst buffer count padded extent).slice (i * size) size) =
        padWithFirst buffer count padded extent := by
    rw [(Bytes.tiles_uniform parts size).concat_slice, ← hvector, List.take_length]
  refine ⟨padWithFirst buffer count padded extent, padInPlace_eq_some hcount hbuffer, rfl,
    hpadded, fun i => Bytes.length_block hvector.ge i, hblocks, ?_, ?_⟩
  · rw [hblocks, hpadded.vector]
  · rintro arithmetic dtype root inputs blocks wholes rfl hroot hroom hroom'
    constructor
    · exact @Together.settles_answer parts arithmetic
        (fun me => ⟨.scatter (padded / parts) dtype root, inputs me, blocks me⟩) _ _
        (together_scatter_blocks hvector root hroot hroom)
    · exact @Together.settles_answer parts arithmetic
        (fun me => ⟨.allgather (padded / parts) dtype,
          (padWithFirst buffer count padded dtype.size).slice (me * size) size, wholes me⟩) _ _
        (together_allgather_blocks hvector hroom')

/-- Five elements among four ranks: the third block is half padding and the fourth one all of it.
The third rank holds the padded vector. -/
theorem padding_survives_blocks_half_padded :
    let filled : Bytes := [1, 2, 3, 4, 5, 1, 1, 1]
    let block (me : Fin 4) : Bytes := filled.slice (me * 2) 2
    0 < 4 ∧ IsLeast {multiple | 4 ∣ multiple ∧ 5 ≤ multiple} 8 ∧
      padInPlace 5 8 1 [1, 2, 3, 4, 5, 9, 9, 9] = some filled ∧
      Bytes.concat block = filled ∧
      Settles (fun me => answer Reduction.firstOperand me
          ⟨.scatter 2 .uint8 2, if me = 2 then filled else [], [0, 0]⟩)
        (fun me => ⟨.ok (), block me⟩) ∧
      Settles (fun me => answer Reduction.firstOperand me
          ⟨.allgather 2 .uint8, block me, [0, 0, 0, 0, 0, 0, 0, 0]⟩)
        fun _ => ⟨.ok (), filled⟩ := by
  intro filled block
  obtain ⟨hleast, -, hbuffers⟩ := padding_survives_blocks (by decide : 0 < 4) 5 1
  obtain ⟨-, filled', hfilled, -, -, -, hconcat, -, hmoves⟩ :=
    hbuffers [1, 2, 3, 4, 5, 9, 9, 9] rfl
  have hsame : filled = filled' := Option.some.inj (Eq.trans (by decide) hfilled)
  subst hsame
  obtain ⟨hscatter, hallgather⟩ := hmoves Reduction.firstOperand .uint8 2
    (fun me => if me = 2 then filled else []) (fun _ => [0, 0])
    (fun _ => [0, 0, 0, 0, 0, 0, 0, 0]) rfl rfl (fun _ => rfl) fun _ => rfl
  exact ⟨by decide, hleast, hfilled, hconcat, hscatter, hallgather⟩

end Layout

end CollectiveTuner
