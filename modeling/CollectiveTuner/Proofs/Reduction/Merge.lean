import CollectiveTuner.Proofs.Buffer.Blocks
import CollectiveTuner.Reduction

/-!
# Combining vectors from left to right

`merge` is what `accumulate` computes when it succeeds, and `mergeAll` combines a list of
vectors from left to right. Elements are combined one by one, so a slice of the combination is
the combination of the slices. Nothing here assumes a law of how two elements are combined.
-/

namespace CollectiveTuner.Reduction

open Bytes (slice length_ofNatLE)

/-- The combination of the elements is defined. It is but for bitwise or on floats. -/
def Supported (dtype : Datatype) (op : ReduceOp) : Prop :=
  ¬ (op = .bitOr ∧ dtype.isInteger = false)
  deriving Decidable

/-- Arithmetic that keeps the first operand, for examples without floating-point elements. -/
def firstOperand : FloatArithmetic where
  single _ a _ := a
  double _ a _ := a

variable {arithmetic : FloatArithmetic} {dtype : Datatype} {op : ReduceOp}

/-- A supported combination passes the check. -/
theorem checkSupported_of_supported (hsupported : Supported dtype op) :
    checkSupported dtype op = .ok () := by
  rw [checkSupported, if_neg hsupported]
  rfl

/-- A combination that is not supported fails the check. -/
theorem checkSupported_of_not_supported (hunsupported : ¬ Supported dtype op) :
    checkSupported dtype op = .error (.unsupportedDatatype dtype "bor") := by
  rw [checkSupported, if_pos (not_not.mp hunsupported)]
  rfl

/-- The first `count` elements of `target` combined with those of `source`. -/
def merge (arithmetic : FloatArithmetic) (dtype : Datatype) (op : ReduceOp) (count : Nat)
    (target source : Bytes) : Bytes :=
  match combiner? arithmetic dtype op with
  | some combine => combineElements combine count target source
  | none => target

/-- A list of vectors combined from left to right. -/
def mergeAll (arithmetic : FloatArithmetic) (dtype : Datatype) (op : ReduceOp) (count : Nat) :
    List Bytes → Bytes
  | [] => []
  | first :: rest => rest.foldl (merge arithmetic dtype op count) first

/-- What a fold has after one more contribution. -/
def join (arithmetic : FloatArithmetic) (dtype : Datatype) (op : ReduceOp) (count : Nat)
    (folded : Option Bytes) (contribution : Bytes) : Option Bytes :=
  match folded with
  | none => some contribution
  | some folded => some (merge arithmetic dtype op count folded contribution)

/-- Joining contributions to a first one merges them into it in turn. -/
theorem foldl_join_some (count : Nat) (folded : Bytes) (contributions : List Bytes) :
    contributions.foldl (join arithmetic dtype op count) (some folded) =
      some (contributions.foldl (merge arithmetic dtype op count) folded) := by
  induction contributions generalizing folded with
  | nil => rfl
  | cons _ _ ih => exact ih _

/-- Contributions joined one after another are combined from left to right. -/
theorem getD_foldl_join (count : Nat) (contributions : List Bytes) :
    (contributions.foldl (join arithmetic dtype op count) none).getD [] =
      mergeAll arithmetic dtype op count contributions := by
  cases contributions with
  | nil => rfl
  | cons first rest =>
    rw [List.foldl_cons, join, foldl_join_some]
    rfl

section Elements

variable {size : Nat}
  (combine : BitVec (8 * size) → BitVec (8 * size) → BitVec (8 * size))

/-- Combining elements keeps the length of the target. -/
theorem length_combineElements {count : Nat} {target : Bytes} (source : Bytes)
    (htarget : count * size ≤ target.length) :
    (combineElements combine count target source).length = target.length := by
  induction count generalizing target source with
  | zero => rfl
  | succ count ih =>
    rw [Nat.succ_mul] at htarget
    simp only [combineElements, List.length_append, length_ofNatLE]
    rw [ih _ (by simp only [List.length_drop]; omega), List.length_drop]
    omega

/-- The first elements of a combination are the combination of the first elements. -/
theorem take_combineElements {count taken : Nat} (htaken : taken ≤ count) (target source : Bytes) :
    (combineElements combine count target source).take (taken * size) =
      combineElements combine taken (target.take (taken * size)) (source.take (taken * size)) := by
  induction taken generalizing count target source with
  | zero => simp [combineElements]
  | succ taken ih =>
    obtain ⟨count, rfl⟩ : ∃ before, count = before + 1 := ⟨count - 1, by omega⟩
    have hsize : (taken + 1) * size = size + taken * size := by ring
    have hmin : min size (size + taken * size) = size := by omega
    simp only [combineElements, hsize, List.take_take, hmin, List.drop_take,
      Nat.add_sub_cancel_left]
    rw [List.take_append, length_ofNatLE, Nat.add_sub_cancel_left, ih (by omega),
      List.take_of_length_le (by rw [length_ofNatLE]; omega)]

/-- The last elements of a combination are the combination of the last elements. -/
theorem drop_combineElements {count dropped : Nat} (hdropped : dropped ≤ count)
    (target source : Bytes) :
    (combineElements combine count target source).drop (dropped * size) =
      combineElements combine (count - dropped) (target.drop (dropped * size))
        (source.drop (dropped * size)) := by
  induction dropped generalizing count target source with
  | zero => simp
  | succ dropped ih =>
    obtain ⟨count, rfl⟩ : ∃ before, count = before + 1 := ⟨count - 1, by omega⟩
    have hsize : (dropped + 1) * size = size + dropped * size := by ring
    rw [combineElements, hsize, ← List.drop_drop, List.drop_left' (length_ofNatLE _ _),
      ih (by omega), List.drop_drop, List.drop_drop, Nat.add_sub_add_right]

end Elements

/-- Merging keeps the length of the target. -/
theorem length_merge {count : Nat} {target : Bytes} (source : Bytes)
    (htarget : count * dtype.size ≤ target.length) :
    (merge arithmetic dtype op count target source).length = target.length := by
  unfold merge
  split
  · exact length_combineElements _ source htarget
  · rfl

/-- Fewer elements are merged as the front parts of the vectors. -/
theorem take_merge {count taken : Nat} (htaken : taken ≤ count) (target source : Bytes) :
    (merge arithmetic dtype op count target source).take (taken * dtype.size) =
      merge arithmetic dtype op taken (target.take (taken * dtype.size))
        (source.take (taken * dtype.size)) := by
  unfold merge
  split
  · exact take_combineElements _ htaken target source
  · rfl

/-- Without the first elements, the others are merged alike. -/
theorem drop_merge {count dropped : Nat} (hdropped : dropped ≤ count) (target source : Bytes) :
    (merge arithmetic dtype op count target source).drop (dropped * dtype.size) =
      merge arithmetic dtype op (count - dropped) (target.drop (dropped * dtype.size))
        (source.drop (dropped * dtype.size)) := by
  unfold merge
  split
  · exact drop_combineElements _ hdropped target source
  · rfl

/-- What lies beyond the combined elements stays. -/
theorem merge_eq_append (count : Nat) (target source : Bytes) :
    merge arithmetic dtype op count target source =
      merge arithmetic dtype op count (target.take (count * dtype.size))
          (source.take (count * dtype.size)) ++
        target.drop (count * dtype.size) := by
  have hnone (target source : Bytes) : merge arithmetic dtype op 0 target source = target := by
    unfold merge
    split <;> rfl
  have hdrop : (merge arithmetic dtype op count target source).drop (count * dtype.size) =
      target.drop (count * dtype.size) := by
    rw [drop_merge le_rfl, Nat.sub_self, hnone]
  rw [← take_merge le_rfl, ← hdrop, List.take_append_drop]

/-- A slice of a combination is the combination of the slices. -/
theorem slice_merge {count start length : Nat} (hblock : start + length ≤ count)
    (target source : Bytes) :
    (merge arithmetic dtype op count target source).slice (start * dtype.size)
        (length * dtype.size) =
      merge arithmetic dtype op length (target.slice (start * dtype.size) (length * dtype.size))
        (source.slice (start * dtype.size) (length * dtype.size)) := by
  rw [slice, drop_merge (by omega), take_merge (by omega)]
  rfl

/-- A supported combination of vectors that are long enough is accumulated. -/
theorem accumulate_eq_ok {count : Nat} {target source : Bytes} (hsupported : Supported dtype op)
    (htarget : count * dtype.size ≤ target.length) (hsource : count * dtype.size ≤ source.length) :
    accumulate arithmetic dtype op count target source =
      .ok (merge arithmetic dtype op count target source) := by
  have hlong : ¬ (List.length target < count * dtype.size ∨
      List.length source < count * dtype.size) := by omega
  simp only [accumulate, checkSupported_of_supported hsupported, bind, Except.bind, if_neg hlong,
    merge]
  cases dtype <;> cases op <;> first | rfl | exact absurd hsupported (by decide)

/-! ### Lists of vectors -/

/-- At least one vector merged with others keeps its length. -/
theorem length_mergeAll {count : Nat} {vectors : List Bytes} (hvectors : vectors ≠ [])
    (hlength : ∀ vector ∈ vectors, vector.length = count * dtype.size) :
    (mergeAll arithmetic dtype op count vectors).length = count * dtype.size := by
  cases vectors with
  | nil => exact absurd rfl hvectors
  | cons first rest =>
    have hfirst := hlength first (by simp)
    clear hvectors hlength
    simp only [mergeAll]
    induction rest generalizing first with
    | nil => exact hfirst
    | cons second rest ih => exact ih _ (by rw [length_merge second hfirst.ge, hfirst])

/-- One vector more is merged into the others. -/
theorem mergeAll_append_singleton (count : Nat) {vectors : List Bytes} (hvectors : vectors ≠ [])
    (vector : Bytes) :
    mergeAll arithmetic dtype op count (vectors ++ [vector]) =
      merge arithmetic dtype op count (mergeAll arithmetic dtype op count vectors) vector := by
  cases vectors with
  | nil => exact absurd rfl hvectors
  | cons first rest => simp [mergeAll, List.foldl_append]

/-- A slice of the combination of all vectors is the combination of their slices. -/
theorem slice_mergeAll {count start length : Nat} (hblock : start + length ≤ count)
    (vectors : List Bytes) :
    (mergeAll arithmetic dtype op count vectors).slice (start * dtype.size) (length * dtype.size) =
      mergeAll arithmetic dtype op length
        (vectors.map fun vector => vector.slice (start * dtype.size) (length * dtype.size)) := by
  cases vectors with
  | nil => simp [mergeAll, slice]
  | cons first rest =>
    simp only [mergeAll, List.map_cons]
    induction rest generalizing first with
    | nil => rfl
    | cons second rest ih =>
      rw [List.foldl_cons, ih, slice_merge hblock]
      rfl

/-! ### Bitwise or of bytes -/

/-- Bytes are combined with the bitwise or one by one. -/
theorem combineElements_bitOr {count : Nat} {target source : Bytes}
    (htarget : target.length = count) (hsource : source.length = count) :
    @combineElements Datatype.uint8.size (ReduceOp.bitOr.onWord false) count target source =
      List.zipWith (· ||| ·) target source := by
  induction count generalizing target source with
  | zero =>
    rw [List.length_eq_zero_iff.mp htarget]
    rfl
  | succ count ih =>
    obtain ⟨a, target, rfl⟩ := List.exists_cons_of_length_eq_add_one htarget
    obtain ⟨b, source, rfl⟩ := List.exists_cons_of_length_eq_add_one hsource
    have hrest := ih (Nat.succ_inj.mp htarget) (Nat.succ_inj.mp hsource)
    have hbyte : Bytes.ofNatLE 1 ((BitVec.ofNat 8 (a.toNat + 256 * 0)) |||
        (BitVec.ofNat 8 (b.toNat + 256 * 0))).toNat = [a ||| b] := by
      simp [Bytes.ofNatLE]
    exact congrArg₂ (· ++ ·) hbyte hrest

/-- A vector of zeros is neutral on the left. -/
theorem merge_zeros_left {count : Nat} {vector : Bytes} (hvector : vector.length = count) :
    merge arithmetic .uint8 .bitOr count (List.replicate count 0) vector = vector := by
  refine (combineElements_bitOr List.length_replicate hvector).trans ?_
  subst hvector
  induction vector with
  | nil => rfl
  | cons byte vector ih => simpa [List.replicate_succ] using ih

/-- A vector of zeros is neutral on the right. -/
theorem merge_zeros_right {count : Nat} {vector : Bytes} (hvector : vector.length = count) :
    merge arithmetic .uint8 .bitOr count vector (List.replicate count 0) = vector := by
  refine (combineElements_bitOr hvector List.length_replicate).trans ?_
  subst hvector
  induction vector with
  | nil => rfl
  | cons byte vector ih => simpa [List.replicate_succ] using ih

/-- Merging zeros into a vector with the bitwise or changes nothing. -/
theorem foldl_merge_zeros {count : Nat} {vector : Bytes} (hvector : vector.length = count)
    {rest : List Bytes} (hrest : ∀ other ∈ rest, other = List.replicate count 0) :
    rest.foldl (merge arithmetic .uint8 .bitOr count) vector = vector := by
  induction rest with
  | nil => rfl
  | cons first rest ih =>
    rw [List.foldl_cons, hrest first (by simp), merge_zeros_right hvector]
    exact ih fun other hother => hrest other (by simp [hother])

/-- When one vector of a list is the only one that is not all zeros, the bitwise or of the list is
that vector. -/
theorem mergeAll_among_zeros {count : Nat} {before after : List Bytes} {vector : Bytes}
    (hvector : vector.length = count)
    (hbefore : ∀ other ∈ before, other = List.replicate count 0)
    (hafter : ∀ other ∈ after, other = List.replicate count 0) :
    mergeAll arithmetic .uint8 .bitOr count (before ++ vector :: after) = vector := by
  cases before with
  | nil => exact foldl_merge_zeros hvector hafter
  | cons first before =>
    have hzeros : before.foldl (merge arithmetic .uint8 .bitOr count) (List.replicate count 0) =
        List.replicate count 0 :=
      foldl_merge_zeros List.length_replicate fun other hother => hbefore other (by simp [hother])
    rw [List.cons_append, mergeAll, hbefore first (by simp), List.foldl_append, hzeros,
      List.foldl_cons, merge_zeros_left hvector, foldl_merge_zeros hvector hafter]

end CollectiveTuner.Reduction
