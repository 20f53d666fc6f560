import CollectiveTuner.Buffer
import Mathlib

/-!
# Blocks that tile a buffer

Collective operations cut a buffer into one block for each rank and put blocks of all ranks
together. When the blocks follow one another without gaps, writing them one at a time is
writing their concatenation, and cutting the concatenation gives the blocks back.
-/

namespace CollectiveTuner.Bytes

/-- The block of `length` bytes at `start`, or what the buffer has of it. -/
def slice (buffer : Bytes) (start length : Nat) : Bytes :=
  (buffer.drop start).take length

/-- The blocks of all ranks, one after another. -/
def concat {n : Nat} (block : Fin n → Bytes) : Bytes :=
  (List.ofFn block).flatten

/-- The buffer after the blocks of some ranks have been written, in the order of the ranks. -/
def place {ι : Type} (ranks : List ι) (start : ι → Nat) (block : ι → Bytes) (buffer : Bytes) :
    Bytes :=
  ranks.foldl (fun buffer rank => buffer.overwrite (start rank) (block rank)) buffer

/-! ### Slices -/

/-- A span inside the buffer is a slice of it. -/
theorem span_eq_slice {buffer : Bytes} {start length : Nat}
    (hblock : start + length ≤ buffer.length) :
    buffer.span start length = .ok (buffer.slice start length) :=
  span_eq_ok hblock

/-- A slice inside the buffer has the asked length. -/
theorem length_slice {buffer : Bytes} {start length : Nat}
    (hblock : start + length ≤ buffer.length) : (buffer.slice start length).length = length := by
  simp only [slice, List.length_take, List.length_drop]
  omega

/-- A slice at the front of a buffer that is long enough has the asked length. -/
theorem length_slice_zero {buffer : Bytes} {length : Nat} (hlength : length ≤ buffer.length) :
    (buffer.slice 0 length).length = length :=
  length_slice ((Nat.zero_add _).trans_le hlength)

/-- A slice of no bytes is empty. -/
@[simp] theorem slice_zero (buffer : Bytes) (start : Nat) : buffer.slice start 0 = [] := by
  simp [slice]

/-- A slice at the front consists of the first bytes. -/
theorem slice_start (buffer : Bytes) (length : Nat) :
    buffer.slice 0 length = buffer.take length := by
  simp [slice]

/-- A slice of all bytes is the buffer. -/
theorem slice_self (buffer : Bytes) : buffer.slice 0 buffer.length = buffer := by
  simp [slice]

/-- A slice of a slice is a slice of the buffer. -/
theorem slice_slice (buffer : Bytes) {start length start' length' : Nat}
    (hblock : start' + length' ≤ length) :
    (buffer.slice start length).slice start' length' = buffer.slice (start + start') length' := by
  simp only [slice, List.drop_take, List.take_take, List.drop_drop]
  rw [min_eq_left (by omega)]

/-- A slice that lies in the first of two parts is a slice of that part. -/
theorem slice_append_left {first : Bytes} (second : Bytes) {start length : Nat}
    (hblock : start + length ≤ first.length) :
    Bytes.slice (first ++ second) start length = first.slice start length := by
  have hstart : start ≤ List.length first := by omega
  simp only [slice, List.drop_append_of_le_length hstart]
  exact List.take_append_of_le_length (by simp only [List.length_drop]; omega)

/-- The slice behind the first of two parts is the second part. -/
theorem slice_append_right (first second : Bytes) {length : Nat}
    (hlength : length = second.length) :
    Bytes.slice (first ++ second) first.length length = second := by
  simp [slice, hlength]

/-! ### Writing blocks -/

/-- Writing nothing changes nothing. -/
@[simp] theorem overwrite_nil (buffer : Bytes) (start : Nat) :
    buffer.overwrite start [] = buffer := by
  simp [overwrite]

/-- Writing a block under a condition. -/
theorem overwrite_ite (condition : Prop) [Decidable condition] (buffer block : Bytes)
    (start : Nat) :
    buffer.overwrite start (if condition then block else []) =
      if condition then buffer.overwrite start block else buffer := by
  split
  · rfl
  · rw [overwrite_nil]

/-- A block written at the front comes before what it leaves of the buffer. -/
theorem overwrite_zero (buffer block : Bytes) :
    buffer.overwrite 0 block = block ++ buffer.drop block.length := by
  simp [overwrite]

/-- Writing a whole buffer over leaves nothing of it. -/
theorem overwrite_zero_of_length {buffer block : Bytes} (hlength : block.length = buffer.length) :
    buffer.overwrite 0 block = block := by
  simp [overwrite_zero, hlength]

/-- Writing a block where it already is changes nothing. -/
theorem overwrite_slice (buffer : Bytes) (start length : Nat) :
    buffer.overwrite start (buffer.slice start length) = buffer := by
  have hrest := List.prefix_iff_eq_append.mp (List.take_prefix length (buffer.drop start))
  rw [overwrite, ← List.drop_drop, List.append_assoc, slice, hrest, List.take_append_drop]

/-- Two blocks next to each other are written as one. -/
theorem overwrite_append {buffer : Bytes} (first second : Bytes) {start : Nat}
    (hstart : start ≤ buffer.length) :
    (buffer.overwrite start first).overwrite (start + first.length) second =
      buffer.overwrite start (first ++ second) := by
  have htake : (buffer.take start).length = start := List.length_take_of_le hstart
  have hfirst : (buffer.take start ++ first).length = start + List.length first := by
    rw [List.length_append, htake]
  have hleft : (buffer.overwrite start first).take (start + first.length) =
      buffer.take start ++ first := by
    rw [overwrite, ← hfirst, List.take_left]
  have hright : (buffer.overwrite start first).drop (start + first.length + second.length) =
      buffer.drop (start + (first ++ second).length) := by
    have hlength : (buffer.take start ++ first).length ≤ start + first.length + second.length := by
      omega
    rw [overwrite, List.drop_append, List.drop_eq_nil_of_le hlength, List.nil_append, hfirst,
      List.drop_drop, List.length_append]
    congr 1
    omega
  rw [overwrite, hleft, hright]
  simp only [overwrite, List.append_assoc]

/-- What was written is read back. -/
theorem slice_overwrite {buffer block : Bytes} {start : Nat} (hstart : start ≤ buffer.length) :
    (buffer.overwrite start block).slice start block.length = block := by
  have htake : (buffer.take start).length = start := List.length_take_of_le hstart
  rw [slice, overwrite, List.append_assoc, List.drop_left' htake, List.take_left]

/-- A slice apart from a block stays when the block is written. -/
theorem slice_overwrite_of_disjoint {buffer block : Bytes} {start start' length : Nat}
    (hblock : start + block.length ≤ buffer.length)
    (hdisjoint : start' + length ≤ start ∨ start + block.length ≤ start') :
    (buffer.overwrite start block).slice start' length = buffer.slice start' length := by
  have htake : (buffer.take start).length = start := List.length_take_of_le (by omega)
  rcases hdisjoint with hbelow | habove
  · have hslice : Bytes.slice (buffer.take start) start' length = buffer.slice start' length := by
      rw [← slice_start, slice_slice buffer (by omega), Nat.zero_add]
    rw [overwrite, List.append_assoc, slice_append_left _ (by rw [htake]; exact hbelow), hslice]
  · have hfirst : (buffer.take start ++ block).length = start + List.length block := by
      rw [List.length_append, htake]
    rw [slice, overwrite, List.drop_append, List.drop_eq_nil_of_le (by omega), List.nil_append,
      hfirst, List.drop_drop, Nat.add_sub_cancel' habove]
    rfl

/-- What lies beyond a block stays when the block is written. -/
theorem drop_overwrite {buffer block : Bytes} {start stop : Nat} (hstart : start ≤ buffer.length)
    (hstop : start + block.length ≤ stop) :
    (buffer.overwrite start block).drop stop = buffer.drop stop := by
  have hwritten : (buffer.take start ++ block).length = start + List.length block := by
    rw [List.length_append, List.length_take_of_le hstart]
  rw [overwrite, List.drop_append, List.drop_eq_nil_of_le (by omega), hwritten, List.drop_drop,
    List.nil_append, Nat.add_sub_cancel' hstop]

/-- A block that is written over leaves nothing. -/
theorem overwrite_zero_overwrite {buffer block whole : Bytes} {start : Nat}
    (hstart : start ≤ buffer.length) (hinside : start + block.length ≤ whole.length) :
    (buffer.overwrite start block).overwrite 0 whole = buffer.overwrite 0 whole := by
  rw [overwrite_zero, overwrite_zero, drop_overwrite hstart hinside]

/-- A slice of equal bytes consists of such bytes. -/
theorem slice_replicate {size start length : Nat} (hblock : start + length ≤ size) (byte : UInt8) :
    Bytes.slice (List.replicate size byte) start length = List.replicate length byte := by
  rw [slice, List.drop_replicate, List.take_replicate, min_eq_left (by omega)]

/-! ### Single bytes -/

/-- A position in a slice is a position of the buffer, moved by the start. -/
theorem getElem?_slice (buffer : Bytes) (start length j : Nat) :
    (buffer.slice start length)[j]? = if j < length then buffer[start + j]? else none := by
  rw [slice, List.getElem?_take, List.getElem?_drop]

/-- A byte of the buffer comes from the block where the block is, and otherwise from before. -/
theorem getElem?_overwrite {buffer block : Bytes} {start : Nat}
    (hblock : start + block.length ≤ buffer.length) (i : Nat) :
    (buffer.overwrite start block)[i]? =
      if start ≤ i ∧ i < start + block.length then block[i - start]? else buffer[i]? := by
  have htake : (buffer.take start).length = start := List.length_take_of_le (by omega)
  rw [overwrite, List.append_assoc, List.getElem?_append, htake]
  by_cases hbelow : i < start
  · rw [if_pos hbelow, if_neg (by omega), List.getElem?_take, if_pos hbelow]
  · rw [if_neg hbelow, List.getElem?_append]
    by_cases hinside : i < start + block.length
    · rw [if_pos (by omega), if_pos ⟨by omega, hinside⟩]
    · rw [if_neg (by omega), if_neg (by omega), List.getElem?_drop]
      congr 1
      omega

section Place

variable {ι : Type} {ranks : List ι} {start : ι → Nat} {block : ι → Bytes} {buffer : Bytes}

/-- Blocks that are placed inside a buffer keep its length. -/
theorem length_place
    (hinside : ∀ rank ∈ ranks, start rank + (block rank).length ≤ buffer.length) :
    (place ranks start block buffer).length = buffer.length := by
  induction ranks generalizing buffer with
  | nil => rfl
  | cons first rest ih =>
    have hfirst := length_overwrite (hinside first List.mem_cons_self)
    have hrest := @ih (buffer.overwrite (start first) (block first)) fun rank hrank => by
      rw [hfirst]
      exact hinside rank (List.mem_cons_of_mem _ hrank)
    exact hrest.trans hfirst

/-- A byte outside all blocks stays. -/
theorem getElem?_place_of_outside
    (hinside : ∀ rank ∈ ranks, start rank + (block rank).length ≤ buffer.length) {i : Nat}
    (houtside : ∀ rank ∈ ranks, ¬ (start rank ≤ i ∧ i < start rank + (block rank).length)) :
    (place ranks start block buffer)[i]? = buffer[i]? := by
  induction ranks generalizing buffer with
  | nil => rfl
  | cons first rest ih =>
    have hfirst := hinside first List.mem_cons_self
    have hrest := @ih (buffer.overwrite (start first) (block first))
      (fun rank hrank => by
        rw [length_overwrite hfirst]
        exact hinside rank (List.mem_cons_of_mem _ hrank))
      fun rank hrank => houtside rank (List.mem_cons_of_mem _ hrank)
    rw [getElem?_overwrite hfirst, if_neg (houtside first List.mem_cons_self)] at hrest
    exact hrest

/-- A byte that is in one block only comes from that block. -/
theorem getElem?_place
    (hinside : ∀ rank ∈ ranks, start rank + (block rank).length ≤ buffer.length) {rank : ι}
    (hrank : rank ∈ ranks) {j : Nat} (hj : j < (block rank).length)
    (halone : ∀ other ∈ ranks, other ≠ rank →
      ¬ (start other ≤ start rank + j ∧ start rank + j < start other + (block other).length)) :
    (place ranks start block buffer)[start rank + j]? = (block rank)[j]? := by
  induction ranks generalizing buffer with
  | nil => cases hrank
  | cons first rest ih =>
    have hfirst := hinside first List.mem_cons_self
    have hinside' : ∀ other ∈ rest, start other + (block other).length ≤
        (buffer.overwrite (start first) (block first)).length := fun other hother => by
      rw [length_overwrite hfirst]
      exact hinside other (List.mem_cons_of_mem _ hother)
    have halone' := fun other hother => halone other (List.mem_cons_of_mem _ hother)
    by_cases hlater : rank ∈ rest
    · exact ih hinside' hlater halone'
    · obtain rfl : rank = first := (List.mem_cons.mp hrank).resolve_right hlater
      have hkept := getElem?_place_of_outside hinside' fun other hother =>
        halone' other hother fun heq => hlater (heq ▸ hother)
      rw [getElem?_overwrite hfirst, if_pos (by omega), Nat.add_sub_cancel_left] at hkept
      exact hkept

end Place

/-! ### Tilings -/

/-- Of `n` blocks, the first begins at zero and every other one where the one before it ends. -/
structure Tiles (n : Nat) (start length : Nat → Nat) : Prop where
  zero : start 0 = 0
  succ : ∀ i < n, start (i + 1) = start i + length i

/-- Blocks of equal length tile. -/
theorem tiles_uniform (n length : Nat) : Tiles n (fun i => i * length) (fun _ => length) where
  zero := Nat.zero_mul length
  succ i _ := Nat.succ_mul i length

section Concat

variable {n : Nat}

/-- Concatenating one block more appends it. -/
theorem concat_succ (block : Fin (n + 1) → Bytes) :
    concat block = concat (fun i => block i.castSucc) ++ block (Fin.last n) := by
  rw [concat, List.ofFn_succ', List.concat_eq_append, List.flatten_append]
  simp [concat]

namespace Tiles

variable {start length : Nat → Nat}

/-- The tiles without the last one are tiles. -/
theorem init (htiles : Tiles (n + 1) start length) : Tiles n start length where
  zero := htiles.zero
  succ i hi := htiles.succ i (by omega)

/-- Later tiles do not start earlier. -/
theorem start_le (htiles : Tiles n start length) {i j : Nat} (hij : i ≤ j) (hj : j ≤ n) :
    start i ≤ start j := by
  induction j, hij using Nat.le_induction with
  | base => exact le_rfl
  | succ j _ ih =>
    have hsucc := htiles.succ j (by omega)
    have := ih (by omega)
    omega

/-- Every block ends within the tiled part. -/
theorem stop_le (htiles : Tiles n start length) (i : Fin n) : start i + length i ≤ start n := by
  rw [← htiles.succ i i.isLt]
  exact htiles.start_le i.isLt le_rfl

/-- Blocks as long as their tiles are together as long as all tiles. -/
theorem length_concat (htiles : Tiles n start length) {block : Fin n → Bytes}
    (hlength : ∀ i, (block i).length = length i) : (concat block).length = start n := by
  induction n with
  | zero => simp [concat, htiles.zero]
  | succ n ih =>
    rw [concat_succ, List.length_append, ih htiles.init fun i => hlength i.castSucc,
      hlength (Fin.last n), htiles.succ n (by omega), Fin.val_last]

/-- Cutting the concatenation gives the blocks back. -/
theorem slice_concat (htiles : Tiles n start length) {block : Fin n → Bytes}
    (hlength : ∀ i, (block i).length = length i) (i : Fin n) :
    (concat block).slice (start i) (length i) = block i := by
  induction n with
  | zero => exact i.elim0
  | succ n ih =>
    have hinit := htiles.init.length_concat fun i => hlength i.castSucc
    rw [concat_succ]
    cases i using Fin.lastCases with
    | last =>
      rw [Fin.val_last, ← hinit]
      exact slice_append_right _ _ (hlength (Fin.last n)).symm
    | cast i =>
      rw [Fin.val_castSucc, slice_append_left _ (by rw [hinit]; exact htiles.init.stop_le i)]
      exact ih htiles.init (fun i => hlength i.castSucc) i

/-- The slices of a buffer put together are the buffer, as far as they reach. -/
theorem concat_slice (htiles : Tiles n start length) (buffer : Bytes) :
    concat (fun i : Fin n => buffer.slice (start i) (length i)) = buffer.take (start n) := by
  induction n with
  | zero => simp [concat, htiles.zero]
  | succ n ih =>
    rw [concat_succ, htiles.succ n (by omega), List.take_add]
    simp only [Fin.val_castSucc, ih htiles.init]
    rfl

/-- A buffer that is as long as the blocks together and has them as its slices is their
concatenation. -/
theorem eq_concat (htiles : Tiles n start length) {buffer : Bytes} {block : Fin n → Bytes}
    (hbuffer : buffer.length = start n)
    (hslice : ∀ i : Fin n, buffer.slice (start i) (length i) = block i) :
    buffer = concat block := by
  rw [← funext hslice, htiles.concat_slice, ← hbuffer, List.take_length]

/-- Writing the blocks one by one is writing their concatenation. Blocks that are already in
place may be left out. -/
theorem place_eq (htiles : Tiles n start length) {block : Fin n → Bytes} {buffer : Bytes}
    (hlength : ∀ i, (block i).length = length i) (hbuffer : start n ≤ buffer.length)
    (written : Fin n → Bool)
    (hkept : ∀ i, written i = false → buffer.slice (start i) (length i) = block i) :
    place ((List.finRange n).filter written) (fun i => start i) block buffer =
      buffer.overwrite 0 (concat block) := by
  induction n with
  | zero => simp [place, concat]
  | succ n ih =>
    have hinit := htiles.init.length_concat fun i => hlength i.castSucc
    have hstop := htiles.succ n (by omega)
    have hlast := hlength (Fin.last n)
    simp only [Fin.val_last] at hlast
    -- The last block is written on top of the concatenation of those before it.
    have hbefore := ih htiles.init (fun i => hlength i.castSucc) (by omega)
      (fun i => written i.castSucc) fun i hi => hkept i.castSucc hi
    have happend := overwrite_append (concat fun i : Fin n => block i.castSucc)
      (block (Fin.last n)) (Nat.zero_le (List.length buffer))
    rw [Nat.zero_add, hinit] at happend
    rw [concat_succ, List.finRange_succ_last, List.filter_append, place, List.foldl_append,
      List.filter_map, List.foldl_map, ← happend]
    simp only [place] at hbefore
    simp only [Function.comp_def, Fin.val_castSucc, hbefore]
    cases hwritten : written (Fin.last n) with
    | true => simp [hwritten]
    | false =>
      have hslice := hkept (Fin.last n) hwritten
      simp only [Fin.val_last] at hslice
      rw [happend, List.filter_cons_of_neg (by simp [hwritten]), List.filter_nil, List.foldl_nil,
        overwrite_zero, overwrite_zero, ← hslice, List.append_assoc, List.length_append, hinit,
        length_slice (by omega), ← List.drop_drop]
      simp only [slice, List.take_append_drop]

/-- Placing all blocks on their tiles writes their concatenation at the front. -/
theorem place_finRange (htiles : Tiles n start length) {block : Fin n → Bytes} {buffer : Bytes}
    (hlength : ∀ i, (block i).length = length i) (hbuffer : start n ≤ buffer.length) :
    place (List.finRange n) (fun i => start i) block buffer =
      buffer.overwrite 0 (concat block) := by
  simpa using htiles.place_eq hlength hbuffer (fun _ => true) (by simp)

end Tiles

/-- Every block of a repeated block is that block. -/
theorem slice_flatten_replicate {block : Bytes} {length : Nat} (hlength : block.length = length)
    (i : Fin n) : Bytes.slice (List.replicate n block).flatten (i * length) length = block := by
  have hcopies : (List.replicate n block).flatten = concat fun _ : Fin n => block := by
    rw [concat, List.ofFn_const]
  rw [hcopies]
  exact (tiles_uniform n length).slice_concat (fun _ => hlength) i

/-- A buffer with room for one block per rank holds every block. -/
theorem length_block {buffer : Bytes} {length : Nat} (hbuffer : n * length ≤ buffer.length)
    (i : Fin n) : (buffer.slice (i * length) length).length = length :=
  length_slice (((tiles_uniform n length).stop_le i).trans hbuffer)

/-- Equal slices of the buffers of all ranks put together. -/
theorem length_concat_slice {buffers : Fin n → Bytes} (start : Nat) {length : Nat}
    (hblock : ∀ i, start + length ≤ (buffers i).length) :
    (concat fun i => (buffers i).slice start length).length = n * length :=
  (tiles_uniform n length).length_concat fun i => length_slice (hblock i)

/-- Equal slices at the fronts of all buffers have together that many times their length. -/
theorem length_concat_slice_zero {buffers : Fin n → Bytes} {length : Nat}
    (hblock : ∀ i, length ≤ (buffers i).length) :
    (concat fun i => (buffers i).slice 0 length).length = n * length :=
  length_concat_slice 0 fun i => (Nat.zero_add _).trans_le (hblock i)

/-- The equal blocks of a buffer put together are the buffer. -/
theorem concat_blocks {buffer : Bytes} {length : Nat} (hbuffer : buffer.length = n * length) :
    (concat fun i : Fin n => (buffer.slice (i * length) length).slice 0 length) = buffer := by
  simp only [slice_slice buffer (Nat.zero_add length).le, Nat.add_zero]
  rw [(tiles_uniform n length).concat_slice, ← hbuffer, List.take_length]

end Concat

end CollectiveTuner.Bytes
