import CollectiveTuner.Proofs.Reduction.Merge

/-!
# Vectors element by element

A buffer is read as a vector of elements of one size. Combining vectors combines the elements at
each place, so an element of the combination of many vectors is a left fold over the elements of
these vectors at the same place.
-/

namespace CollectiveTuner

namespace Bytes

/-- Element `i` of a buffer of elements of `size` bytes, given by its bit pattern. -/
def element (size : Nat) (buffer : Bytes) (i : Nat) : BitVec (8 * size) :=
  BitVec.ofNat (8 * size) (toNatLE (buffer.slice (i * size) size))

/-- The number that bytes stand for has no more bits than they have. -/
theorem toNatLE_lt (bytes : Bytes) : toNatLE bytes < 2 ^ (8 * bytes.length) := by
  induction bytes with
  | nil => decide
  | cons byte rest ih =>
    have hbyte := byte.toNat_lt
    have hpower : 2 ^ (8 * (byte :: rest).length) = 256 * 2 ^ (8 * rest.length) := by
      rw [List.length_cons, Nat.mul_succ, Nat.pow_add, Nat.mul_comm]
    rw [toNatLE, hpower]
    omega

/-- A number that fits in the bytes is decoded again. -/
theorem toNatLE_ofNatLE {size value : Nat} (hvalue : value < 2 ^ (8 * size)) :
    toNatLE (ofNatLE size value) = value := by
  induction size generalizing value with
  | zero =>
    rw [Nat.mul_zero, Nat.pow_zero] at hvalue
    rw [ofNatLE, toNatLE]
    omega
  | succ size ih =>
    have hpower : 2 ^ (8 * (size + 1)) = 256 * 2 ^ (8 * size) := by
      rw [Nat.mul_succ, Nat.pow_add, Nat.mul_comm]
    rw [ofNatLE, toNatLE, ih (by omega), UInt8.toNat_ofNat']
    omega

/-- The bytes of an element are those at its place. -/
theorem ofNatLE_element {size i : Nat} {buffer : Bytes}
    (hinside : i * size + size ≤ buffer.length) :
    ofNatLE size (element size buffer i).toNat = buffer.slice (i * size) size := by
  have hlength := length_slice hinside
  have hlt := toNatLE_lt (buffer.slice (i * size) size)
  have hbytes := ofNatLE_toNatLE (buffer.slice (i * size) size)
  rw [hlength] at hlt hbytes
  rw [element, BitVec.toNat_ofNat, Nat.mod_eq_of_lt hlt, hbytes]

/-- Buffers that hold the same elements begin with the same bytes. -/
theorem take_eq_of_elements {size count : Nat} {first second : Bytes}
    (hfirst : count * size ≤ first.length) (hsecond : count * size ≤ second.length)
    (helements : ∀ i < count, element size first i = element size second i) :
    first.take (count * size) = second.take (count * size) := by
  have htiles := tiles_uniform count size
  rw [← htiles.concat_slice first, ← htiles.concat_slice second]
  congr 1
  funext i
  rw [← ofNatLE_element ((htiles.stop_le i).trans hfirst),
    ← ofNatLE_element ((htiles.stop_le i).trans hsecond), helements i i.isLt]

/-- An element of a block of a buffer. -/
theorem element_slice {size start count i : Nat} (buffer : Bytes) (hi : i < count) :
    element size (buffer.slice (start * size) (count * size)) i =
      element size buffer (start + i) := by
  have hinside : i * size + size ≤ count * size := by
    rw [← Nat.succ_mul]
    exact Nat.mul_le_mul_right size hi
  rw [element, element, slice_slice buffer hinside, Nat.add_mul]

/-- What is written at the start of a buffer is what is read from there. -/
theorem element_overwrite {size count i : Nat} {buffer block : Bytes}
    (hblock : block.length = count * size) (hi : i < count) :
    element size (buffer.overwrite 0 block) i = element size block i := by
  have hinside : i * size + size ≤ block.length := by
    rw [hblock, ← Nat.succ_mul]
    exact Nat.mul_le_mul_right size hi
  rw [element, element, overwrite_zero, slice_append_left _ hinside]

end Bytes

namespace Reduction

open Bytes (element)

/-- Some values combined from left to right. There has to be one at least. -/
def leftFold {α : Type} (combine : α → α → α) : List α → Option α
  | [] => none
  | first :: rest => some (rest.foldl combine first)

variable {arithmetic : FloatArithmetic} {dtype : Datatype} {op : ReduceOp}
  {combine : BitVec (8 * dtype.size) → BitVec (8 * dtype.size) → BitVec (8 * dtype.size)}

/-- A combination of elements that is supported is carried out by a function of two elements. -/
theorem exists_combiner (hsupported : Supported dtype op) :
    ∃ combine, combiner? arithmetic dtype op = some combine := by
  cases dtype <;> cases op <;> first | exact ⟨_, rfl⟩ | exact absurd hsupported (by decide)

/-- The combination of two vectors holds the combination of their elements at each place. -/
theorem element_combineElements {size count i : Nat}
    (combine : BitVec (8 * size) → BitVec (8 * size) → BitVec (8 * size)) (hi : i < count)
    (target source : Bytes) :
    element size (combineElements combine count target source) i =
      combine (element size target i) (element size source i) := by
  obtain ⟨rest, hrest⟩ : ∃ rest, count - i = rest + 1 := ⟨count - i - 1, by omega⟩
  have hplace : (combineElements combine count target source).slice (i * size) size =
      Bytes.ofNatLE size (combine (element size target i) (element size source i)).toNat := by
    rw [Bytes.slice, drop_combineElements combine hi.le, hrest, combineElements]
    exact List.take_left' (Bytes.length_ofNatLE _ _)
  rw [element, hplace, Bytes.toNatLE_ofNatLE (BitVec.isLt _), BitVec.ofNat_toNat,
    BitVec.setWidth_eq]

/-- Merging combines element with element. -/
theorem element_merge (hcombine : combiner? arithmetic dtype op = some combine) {count i : Nat}
    (hi : i < count) (target source : Bytes) :
    element dtype.size (merge arithmetic dtype op count target source) i =
      combine (element dtype.size target i) (element dtype.size source i) := by
  simp only [merge, hcombine]
  exact element_combineElements combine hi target source

/-- An element of a combination of vectors is the left fold of their elements at its place. -/
theorem element_mergeAll (hcombine : combiner? arithmetic dtype op = some combine) {count i : Nat}
    (hi : i < count) {vectors : List Bytes} (hvectors : vectors ≠ []) :
    some (element dtype.size (mergeAll arithmetic dtype op count vectors) i) =
      leftFold combine (vectors.map fun vector => element dtype.size vector i) := by
  cases vectors with
  | nil => exact absurd rfl hvectors
  | cons first rest =>
    rw [List.map_cons, mergeAll, leftFold]
    congr 1
    induction rest generalizing first with
    | nil => rfl
    | cons second rest ih =>
      rw [List.foldl_cons, List.map_cons, List.foldl_cons, ih _ (by simp),
        element_merge hcombine hi]

end Reduction

end CollectiveTuner
