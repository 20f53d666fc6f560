import CollectiveTuner.Layout
import CollectiveTuner.Proofs.Buffer.Blocks

/-!
# Layouts tile

Every way of dividing a vector among the ranks gives blocks that follow one another without
gaps: padded equal blocks, shares dealt out round robin, and blocks at the displacements that
belong to their counts. A layout exists exactly when its numbers fit in a message header.
-/

namespace CollectiveTuner

/-- A count that fits in a message header is taken as it is. -/
theorem toCount_eq_ok {count : Nat} (hfits : count < UInt32.size) : toCount count = .ok count := by
  rw [toCount, if_pos hfits]
  rfl

/-- A count that does not fit in a message header is refused. -/
theorem toCount_eq_error {count : Nat} (hlarge : ¬ count < UInt32.size) :
    toCount count = .error (.invalidMessageSize count) := by
  rw [toCount, if_neg hlarge]
  rfl

namespace Layout

open Bytes (Tiles)

/-! ### Lists of checked entries -/

/-- Checks that only compute leave a list of their values. -/
theorem mapM_eq_pure {m : Type → Type} [Monad m] [LawfulMonad m] {α β : Type} {entries : List α}
    {check : α → m β} {value : α → β}
    (hpure : ∀ entry ∈ entries, check entry = pure (value entry)) :
    entries.mapM check = pure (entries.map value) := by
  induction entries with
  | nil => rfl
  | cons first rest ih =>
    have hrest := ih fun entry hentry => hpure entry (by simp [hentry])
    rw [List.mapM_cons, hpure first (by simp), hrest, pure_bind, pure_bind, List.map_cons]

section Checked

variable {ε α β : Type} {entries : List α} {check : α → Except ε β}

/-- Checks that all pass leave a list of their values. -/
theorem mapM_eq_ok {value : α → β} (hok : ∀ entry ∈ entries, check entry = .ok (value entry)) :
    entries.mapM check = .ok (entries.map value) :=
  mapM_eq_pure hok

/-- A list with an entry that does not pass its check fails. -/
theorem mapM_eq_error {entry : α} {error : ε} (hentry : entry ∈ entries)
    (herror : check entry = .error error) : ∃ first, entries.mapM check = .error first := by
  induction entries with
  | nil => cases hentry
  | cons first rest ih =>
    rw [List.mapM_cons]
    cases hfirst : check first with
    | error error' => exact ⟨error', rfl⟩
    | ok value =>
      rcases List.mem_cons.mp hentry with rfl | hrest
      · rw [hfirst] at herror
        cases herror
      · obtain ⟨later, hlater⟩ := ih hrest
        exact ⟨later, by rw [hlater]; rfl⟩

end Checked

/-- The entry of a list that has one entry for each part. -/
theorem getD_map_range (value : Nat → Nat) {parts i : Nat} (hi : i < parts) :
    ((List.range parts).map value)[i]?.getD 0 = value i := by
  simp [hi]

/-! ### Displacements -/

/-- The next block starts where this one ends. -/
theorem displacement_succ {counts : List Nat} {i : Nat} (hi : i < counts.length) :
    displacement counts (i + 1) = displacement counts i + counts[i]?.getD 0 := by
  have htotal (first second : List Nat) : total (first ++ second) = total first + total second := by
    induction first with
    | nil => simp [total]
    | cons _ _ ih =>
      simp only [total, List.cons_append, List.foldr_cons] at ih ⊢
      rw [ih, Nat.add_assoc]
  rw [displacement, List.take_add_one, htotal, List.getElem?_eq_getElem hi]
  rfl

/-- Blocks at the displacements that belong to their counts tile. -/
theorem tiles_displacement {counts : List Nat} {parts : Nat} (hparts : parts ≤ counts.length)
    (size : Nat) :
    Tiles parts (fun i => displacement counts i * size) (fun i => counts[i]?.getD 0 * size) where
  zero := Nat.zero_mul size
  succ i hi := by rw [displacement_succ (by omega), Nat.add_mul]

/-- Each listed displacement is where its block starts. -/
theorem getD_displacements {counts : List Nat} {i : Nat} (hi : i < counts.length) :
    (displacements counts)[i]?.getD 0 = displacement counts i :=
  getD_map_range _ hi

/-- Blocks of one length start at its multiples. -/
theorem displacement_replicate {parts i : Nat} (count : Nat) (hi : i ≤ parts) :
    displacement (List.replicate parts count) i = i * count := by
  induction i with
  | zero => simp [displacement, total]
  | succ i ih =>
    rw [displacement_succ (by simp; omega), ih (by omega), Nat.succ_mul]
    simp [show i < parts by omega]

/-! ### Equal blocks -/

/-- The counts of equal blocks. -/
def equalCounts (parts count : Nat) : List Nat :=
  (List.range parts).map fun _ => count

/-- The displacements of equal blocks. -/
def equalDispls (parts count : Nat) : List Nat :=
  (List.range parts).map fun i => i * count

/-- There is one equal count for each part. -/
@[simp] theorem length_equalCounts (parts count : Nat) :
    (equalCounts parts count).length = parts := by
  simp [equalCounts]

/-- There is one equal displacement for each part. -/
@[simp] theorem length_equalDispls (parts count : Nat) :
    (equalDispls parts count).length = parts := by
  simp [equalDispls]

/-- All counts and displacements of equal blocks fit in a message header. -/
def UniformFits (parts count : Nat) : Prop :=
  count < UInt32.size ∧ (parts - 1) * count < UInt32.size

/-- A layout of equal blocks that fits is made. -/
theorem uniform_eq_ok {parts count : Nat} (hfits : UniformFits parts count) :
    uniform parts count = .ok (equalCounts parts count, equalDispls parts count) := by
  have hentry : ∀ i ∈ List.range parts, (do pure (← toCount count, ← toCount (i * count)) :
      Except Error (Nat × Nat)) = .ok (count, i * count) := by
    intro i hi
    have hi : i ≤ parts - 1 := by
      have := List.mem_range.mp hi
      omega
    have hdispl : i * count < UInt32.size :=
      lt_of_le_of_lt (Nat.mul_le_mul_right count hi) hfits.2
    rw [toCount_eq_ok hfits.1, toCount_eq_ok hdispl]
    rfl
  rw [uniform, mapM_eq_ok hentry]
  simp only [bind, Except.bind, pure, Except.pure, List.unzip_eq_map, List.map_map]
  rfl

/-- A layout of equal blocks that does not fit is refused. -/
theorem uniform_eq_error {parts count : Nat} (hparts : 0 < parts)
    (hlarge : ¬ UniformFits parts count) : ∃ error, uniform parts count = .error error := by
  have hlast : parts - 1 ∈ List.range parts := List.mem_range.mpr (by omega)
  obtain ⟨error, herror⟩ : ∃ error, (do
      pure (← toCount count, ← toCount ((parts - 1) * count)) : Except Error (Nat × Nat)) =
        .error error := by
    by_cases hcount : count < UInt32.size
    · have hdispl : ¬ (parts - 1) * count < UInt32.size := fun h => hlarge ⟨hcount, h⟩
      rw [toCount_eq_ok hcount, toCount_eq_error hdispl]
      exact ⟨_, rfl⟩
    · rw [toCount_eq_error hcount]
      exact ⟨_, rfl⟩
  obtain ⟨first, hfirst⟩ : ∃ first, ((List.range parts).mapM fun i => do
      pure (← toCount count, ← toCount (i * count)) : Except Error (List (Nat × Nat))) =
        .error first := mapM_eq_error hlast herror
  exact ⟨first, by rw [uniform, hfirst]; rfl⟩

/-! ### Shares dealt out round robin -/

/-- The elements in the shares of the first `i` parts. -/
def dealt (parts count chunk i : Nat) : Nat :=
  i * (chunk * (count / chunk / parts)) + min i (count / chunk % parts) * chunk +
    if count / chunk % parts < i then count % chunk else 0

/-- The next part adds its share to what is dealt. -/
theorem dealt_succ (parts count chunk i : Nat) :
    dealt parts count chunk (i + 1) =
      dealt parts count chunk i + roundRobinShare parts count chunk i := by
  simp only [dealt, roundRobinShare, Nat.succ_mul]
  rcases Nat.lt_trichotomy i (count / chunk % parts) with hlt | heq | hgt
  · rw [min_eq_left hlt, min_eq_left hlt.le, if_neg (by omega), if_neg (by omega), if_pos hlt,
      Nat.succ_mul]
    omega
  · rw [← heq, min_eq_right (by omega), min_eq_right le_rfl, if_pos (by omega), if_neg (by omega),
      if_neg (by omega), if_pos rfl]
    omega
  · rw [min_eq_right (by omega), min_eq_right hgt.le, if_pos (by omega), if_pos hgt,
      if_neg (by omega), if_neg (by omega)]
    omega

/-- All shares together are the whole vector. -/
theorem dealt_all {parts : Nat} (hparts : 0 < parts) (count chunk : Nat) :
    dealt parts count chunk parts = count := by
  have hturn : count / chunk % parts < parts := Nat.mod_lt _ hparts
  have hchunks : chunk * (parts * (count / chunk / parts) + count / chunk % parts) =
      chunk * (count / chunk) := by
    rw [Nat.div_add_mod]
  have hcount := Nat.div_add_mod count chunk
  have hexpand : chunk * (parts * (count / chunk / parts) + count / chunk % parts) =
      parts * (chunk * (count / chunk / parts)) + count / chunk % parts * chunk := by ring
  rw [dealt, min_eq_right hturn.le, if_pos hturn]
  omega

/-- More parts have more. -/
theorem dealt_mono (parts count chunk : Nat) : Monotone (dealt parts count chunk) :=
  monotone_nat_of_le_succ fun i => by
    rw [dealt_succ]
    exact Nat.le_add_right _ _

/-- No share is larger than the whole. -/
theorem roundRobinShare_le {parts i : Nat} (count chunk : Nat) (hi : i < parts) :
    roundRobinShare parts count chunk i ≤ count := by
  have hall := dealt_all (by omega : 0 < parts) count chunk
  have hle := dealt_mono parts count chunk hi
  have hsucc := dealt_succ parts count chunk i
  simp only [Nat.succ_eq_add_one] at hle
  omega

/-- The shares of `count` elements, where a chunk of zero elements counts as one element. -/
def shares (parts count chunk : Nat) : List Nat :=
  (List.range parts).map (roundRobinShare parts count (max chunk 1))

/-- There is one share for each part. -/
@[simp] theorem length_shares (parts count chunk : Nat) :
    (shares parts count chunk).length = parts := by
  simp [shares]

/-- A number of elements that fits in a message header is dealt out. -/
theorem roundRobinCounts_eq_ok {parts count : Nat} (hfits : count < UInt32.size) (chunk : Nat) :
    roundRobinCounts parts count chunk = .ok (shares parts count chunk) := by
  have hshare : ∀ i ∈ List.range parts, toCount (roundRobinShare parts count (max chunk 1) i) =
      .ok (roundRobinShare parts count (max chunk 1) i) := by
    intro i hi
    have hle := roundRobinShare_le count (max chunk 1) (List.mem_range.mp hi)
    exact toCount_eq_ok (by omega)
  rw [roundRobinCounts, toCount_eq_ok hfits, mapM_eq_ok hshare]
  rfl

/-- A number of elements that does not fit in a message header is refused. -/
theorem roundRobinCounts_eq_error {count : Nat} (hlarge : ¬ count < UInt32.size)
    (parts chunk : Nat) :
    roundRobinCounts parts count chunk = .error (.invalidMessageSize count) := by
  rw [roundRobinCounts, toCount_eq_error hlarge]
  rfl

/-- The share of a part starts behind those of the parts before it. -/
theorem displacement_shares {parts : Nat} (count chunk : Nat) {i : Nat} (hi : i ≤ parts) :
    displacement (shares parts count chunk) i = dealt parts count (max chunk 1) i := by
  induction i with
  | zero => simp [displacement, total, dealt]
  | succ i ih =>
    rw [displacement_succ (by rw [length_shares]; omega), ih (by omega), dealt_succ, shares,
      getD_map_range _ hi]

/-- The shares tile the vector. -/
theorem displacement_shares_all {parts : Nat} (hparts : 0 < parts) (count chunk : Nat) :
    displacement (shares parts count chunk) parts = count := by
  rw [displacement_shares count chunk le_rfl, dealt_all hparts]

/-- Every share lies within the vector. -/
theorem share_stop_le {parts i : Nat} (count chunk : Nat) (hi : i < parts) :
    (displacements (shares parts count chunk))[i]?.getD 0 +
      (shares parts count chunk)[i]?.getD 0 ≤ count := by
  have hlength : i < (shares parts count chunk).length := by simpa using hi
  have hall := dealt_all (by omega : 0 < parts) count (max chunk 1)
  rw [getD_displacements hlength, ← displacement_succ hlength, displacement_shares count chunk hi]
  exact (dealt_mono parts count (max chunk 1) hi).trans hall.le

/-! ### A single block -/

/-- The counts when only the root has a block. -/
def singleCounts (parts root count : Nat) : List Nat :=
  (List.range parts).map fun i => if i = root then count else 0

/-- The displacements when only the root has a block. -/
def singleDispls (parts root count : Nat) : List Nat :=
  (List.range parts).map fun i => if i ≤ root then 0 else count

/-- A single block among empty ones tiles. -/
theorem tiles_single (parts root count size : Nat) :
    Tiles parts (fun i => (if i ≤ root then 0 else count) * size)
      (fun i => (if i = root then count else 0) * size) where
  zero := by simp
  succ i _ := by
    rcases Nat.lt_trichotomy i root with hlt | rfl | hgt
    · rw [if_pos (by omega), if_pos hlt.le, if_neg hlt.ne]
      simp
    · rw [if_neg (by omega), if_pos le_rfl, if_pos rfl]
      simp
    · rw [if_neg (by omega), if_neg (by omega), if_neg hgt.ne']
      simp

/-! ### Padding -/

/-- A padded vector is a whole number of blocks for each part. -/
theorem mul_div_paddedCount {parts : Nat} (hparts : 0 < parts) (count : Nat) :
    parts * (paddedCount count parts / parts) = paddedCount count parts := by
  refine Nat.mul_div_cancel' ?_
  have hdiv := Nat.div_add_mod count parts
  have hmod := Nat.mod_lt count hparts
  unfold paddedCount padding
  split
  · next hzero => exact Nat.dvd_of_mod_eq_zero hzero
  · refine ⟨count / parts + 1, ?_⟩
    rw [Nat.mul_add]
    omega

/-- Padding removes nothing. -/
theorem le_paddedCount (count parts : Nat) : count ≤ paddedCount count parts :=
  Nat.le_add_right _ _

/-- Padding adds less than one element for each part. -/
theorem paddedCount_lt {parts : Nat} (hparts : 0 < parts) (count : Nat) :
    paddedCount count parts < count + parts := by
  have hmod := Nat.mod_lt count hparts
  unfold paddedCount padding
  split <;> omega

/-- Copies of the first element of a buffer, one after another. -/
def copies (buffer : Bytes) (extent number : Nat) : Bytes :=
  (List.replicate number (buffer.take extent)).flatten

/-- One copy more is appended. -/
theorem copies_succ (buffer : Bytes) (extent number : Nat) :
    copies buffer extent (number + 1) = copies buffer extent number ++ buffer.take extent := by
  rw [copies, List.replicate_succ', List.flatten_concat]
  rfl

section Copies

variable {buffer : Bytes} {count padded extent : Nat}

/-- Copies are together that many times as long as the element. -/
theorem length_copies (hextent : extent ≤ buffer.length) (number : Nat) :
    (copies buffer extent number).length = number * extent := by
  have hfirst : (buffer.take extent).length = extent := List.length_take_of_le hextent
  induction number with
  | zero => simp [copies]
  | succ number ih => rw [copies_succ, List.length_append, ih, hfirst, Nat.succ_mul]

/-- Padding writes copies of the first element behind the vector. -/
theorem padWithFirst_eq_overwrite (hcount : 0 < count) (hextent : extent ≤ buffer.length)
    (number : Nat) :
    padWithFirst buffer count (count + number) extent =
      buffer.overwrite (count * extent) (copies buffer extent number) := by
  rw [padWithFirst, if_neg (by omega), Bytes.overwrite, length_copies hextent,
    Nat.add_sub_cancel_left, Nat.add_mul]
  rfl

/-- The copies reach to the end of the padded buffer. -/
theorem copies_stop {number : Nat} (hcount : 0 < count)
    (hbuffer : buffer.length = (count + number) * extent) :
    extent ≤ count * extent ∧ extent ≤ buffer.length ∧
      count * extent + (copies buffer extent number).length = buffer.length := by
  have hvector : 1 * extent ≤ count * extent := Nat.mul_le_mul_right extent hcount
  have hstop : (count + number) * extent = count * extent + number * extent := Nat.add_mul _ _ _
  have hextent : extent ≤ buffer.length := by omega
  have hcopies := length_copies hextent number
  exact ⟨by omega, hextent, by omega⟩

/-- Padding keeps the length. -/
theorem length_padWithFirst (hcount : count ≤ padded) (hbuffer : buffer.length = padded * extent) :
    (padWithFirst buffer count padded extent).length = padded * extent := by
  by_cases hzero : count = 0
  · rw [padWithFirst, if_pos hzero, hbuffer]
  · obtain ⟨number, rfl⟩ := Nat.exists_eq_add_of_le hcount
    have hpositive : 0 < count := by omega
    obtain ⟨-, hextent, hstop⟩ := copies_stop hpositive hbuffer
    rw [padWithFirst_eq_overwrite hpositive hextent, Bytes.length_overwrite hstop.le, hbuffer]

/-- Padding keeps the elements. -/
theorem take_padWithFirst (hcount : count ≤ padded) (hbuffer : buffer.length = padded * extent) :
    (padWithFirst buffer count padded extent).take (count * extent) =
      buffer.take (count * extent) := by
  by_cases hzero : count = 0
  · rw [padWithFirst, if_pos hzero]
  · obtain ⟨number, rfl⟩ := Nat.exists_eq_add_of_le hcount
    have hpositive : 0 < count := by omega
    obtain ⟨-, hextent, hstop⟩ := copies_stop hpositive hbuffer
    rw [padWithFirst_eq_overwrite hpositive hextent, ← Bytes.slice_start, ← Bytes.slice_start]
    exact Bytes.slice_overwrite_of_disjoint hstop.le (.inl (by omega))

end Copies

section Padded

variable {stale elements : Bytes} {count padded extent : Nat} (hcount : count ≤ padded)
  (hstale : stale.length = padded * extent) (helements : elements.length = count * extent)

include hcount hstale helements

/-- Elements written over stale bytes and padded fill the whole buffer. -/
theorem length_padWithFirst_overwrite :
    (padWithFirst (stale.overwrite 0 elements) count padded extent).length = padded * extent := by
  have hle : count * extent ≤ padded * extent := Nat.mul_le_mul_right extent hcount
  exact length_padWithFirst hcount ((Bytes.length_overwrite (by omega)).trans hstale)

/-- The padded vector begins with the elements. -/
theorem take_padWithFirst_overwrite :
    (padWithFirst (stale.overwrite 0 elements) count padded extent).take (count * extent) =
      elements := by
  have hle : count * extent ≤ padded * extent := Nat.mul_le_mul_right extent hcount
  rw [take_padWithFirst hcount ((Bytes.length_overwrite (by omega)).trans hstale), ← helements,
    ← Bytes.slice_start, Bytes.slice_overwrite (Nat.zero_le _)]

end Padded

end Layout

end CollectiveTuner
