import CollectiveTuner.Layout.Machine
import CollectiveTuner.Proofs.Layout.Tilings

/-!
# Shares partition the vector

Chunks that are dealt out round robin give each element to exactly one part, in shares that get no
larger from one part to the next. Neither the shares nor the places where they start need more than
the words they are computed in, as long as the number of all elements fits in a message header.
-/

namespace CollectiveTuner

namespace Bytes.Tiles

variable {n : Nat} {start length : Nat → Nat}

/-- A block ends before any later block begins. -/
theorem stop_le_start (htiles : Tiles n start length) {i j : Nat} (hij : i < j) (hj : j ≤ n) :
    start i + length i ≤ start j := by
  have hsucc := htiles.succ i (by omega)
  have hle := htiles.start_le hij hj
  simp only [Nat.succ_eq_add_one] at hle
  omega

/-- Every position before the end is in one of the blocks. -/
theorem exists_block (htiles : Tiles n start length) {position : Nat}
    (hposition : position < start n) :
    ∃ i < n, start i ≤ position ∧ position < start i + length i := by
  induction n with
  | zero =>
    have hzero := htiles.zero
    omega
  | succ n ih =>
    by_cases hbefore : position < start n
    · obtain ⟨i, hi, hblock⟩ := ih htiles.init hbefore
      exact ⟨i, by omega, hblock⟩
    · have hlast := htiles.succ n (by omega)
      exact ⟨n, by omega, by omega, by omega⟩

end Bytes.Tiles

namespace Layout

/-! ### Partitions -/

/-- Element `element` is in block `i` of the blocks with these counts at these displacements. -/
def InBlock (counts displs : List Nat) (i element : Nat) : Prop :=
  ∃ count start, counts[i]? = some count ∧ displs[i]? = some start ∧
    start ≤ element ∧ element < start + count

/-- Blocks with these counts at these displacements divide a vector of `size` elements: the first
starts at zero, each ends where the next one starts and the last one at the end of the vector, no
element is in two of them, and their elements are those of the vector. -/
structure Partitions (counts displs : List Nat) (size : Nat) : Prop where
  length : displs.length = counts.length
  first : displs.head? = some 0
  contiguous : ∀ i count start, counts[i]? = some count → displs[i]? = some start →
    (displs ++ [size])[i + 1]? = some (start + count)
  disjoint : ∀ i j element, InBlock counts displs i element → InBlock counts displs j element →
    i = j
  covers : ∀ element, element < size ↔ ∃ i, InBlock counts displs i element

/-- Each displacement stands at the index of its block. -/
theorem getElem?_displacements {counts : List Nat} {i : Nat} (hi : i < counts.length) :
    (displacements counts)[i]? = some (displacement counts i) := by
  simp [displacements, hi]

/-- An element is in a block when it lies between the start of the block and the next one. -/
theorem inBlock_displacements_iff {counts : List Nat} {i element : Nat} :
    InBlock counts (displacements counts) i element ↔
      i < counts.length ∧ displacement counts i ≤ element ∧
        element < displacement counts i + counts[i]?.getD 0 := by
  constructor
  · rintro ⟨count, start, hcount, hstart, hholds⟩
    obtain ⟨hi, -⟩ := List.getElem?_eq_some_iff.mp hcount
    rw [getElem?_displacements hi] at hstart
    cases hstart
    rw [hcount]
    exact ⟨hi, hholds⟩
  · rintro ⟨hi, hholds⟩
    exact ⟨_, _, List.getElem?_eq_getElem hi, getElem?_displacements hi,
      by simpa [hi] using hholds⟩

/-- Blocks of any lengths at the displacements that belong to them divide the vector that has all
their elements. -/
theorem partitions_displacements {counts : List Nat} (hcounts : counts ≠ []) :
    Partitions counts (displacements counts) (displacement counts counts.length) := by
  have hlength : 0 < counts.length := List.length_pos_iff.mpr hcounts
  have htiles : Bytes.Tiles counts.length (displacement counts) fun i => counts[i]?.getD 0 := by
    simpa using tiles_displacement (le_refl counts.length) 1
  have hdispls : (displacements counts).length = counts.length := by simp [displacements]
  refine ⟨hdispls, ?_, fun i count start hcount hstart => ?_, fun i j element hi hj => ?_,
    fun element => ⟨fun helement => ?_, ?_⟩⟩
  · rw [List.head?_eq_getElem?, getElem?_displacements hlength, htiles.zero]
  · obtain ⟨hi, -⟩ := List.getElem?_eq_some_iff.mp hcount
    rw [getElem?_displacements hi] at hstart
    have hstart : displacement counts i = start := Option.some.inj hstart
    have hnext : displacement counts (i + 1) = start + count := by
      rw [htiles.succ i hi, hstart, hcount]
      rfl
    rw [← hnext]
    -- The next displacement is that of the next block, or the end of the vector after the last one.
    by_cases hlast : i + 1 < counts.length
    · rw [List.getElem?_append_left (hdispls ▸ hlast), getElem?_displacements hlast]
    · have hend : i + 1 = counts.length := by omega
      rw [List.getElem?_append_right (by omega), hdispls, hend, Nat.sub_self]
      rfl
  · obtain ⟨hi, hstart, hstop⟩ := inBlock_displacements_iff.mp hi
    obtain ⟨hj, hstart', hstop'⟩ := inBlock_displacements_iff.mp hj
    rcases Nat.lt_trichotomy i j with hlt | heq | hgt
    · have hapart := htiles.stop_le_start hlt hj.le
      omega
    · exact heq
    · have hapart := htiles.stop_le_start hgt hi.le
      omega
  · obtain ⟨i, hi, hblock⟩ := htiles.exists_block helement
    exact ⟨i, inBlock_displacements_iff.mpr ⟨hi, hblock⟩⟩
  · rintro ⟨i, hblock⟩
    obtain ⟨hi, hstart, hstop⟩ := inBlock_displacements_iff.mp hblock
    have hinside := htiles.stop_le_start hi le_rfl
    omega

/-! ### The order of the shares -/

section Order

variable {parts count chunk i j : Nat}

/-- A later part gets no more than an earlier one. -/
theorem roundRobinShare_le_of_le (hchunk : 0 < chunk) (hij : i ≤ j) :
    roundRobinShare parts count chunk j ≤ roundRobinShare parts count chunk i := by
  have hrest : count % chunk < chunk := Nat.mod_lt _ hchunk
  simp only [roundRobinShare]
  split_ifs <;> omega

/-- No part gets more than a chunk less than another one. -/
theorem roundRobinShare_le_add (hchunk : 0 < chunk) (parts count i j : Nat) :
    roundRobinShare parts count chunk i ≤ roundRobinShare parts count chunk j + chunk := by
  have hrest : count % chunk < chunk := Nat.mod_lt _ hchunk
  simp only [roundRobinShare]
  split_ifs <;> omega

/-- The shares descend. -/
theorem pairwise_shares (parts count chunk : Nat) :
    (shares parts count chunk).Pairwise (· ≥ ·) := by
  rw [shares, List.pairwise_map]
  exact List.pairwise_lt_range.imp fun hij => roundRobinShare_le_of_le (by omega) hij.le

/-- Two shares differ by at most one chunk. -/
theorem le_add_of_mem_shares {most least : Nat} (hmost : most ∈ shares parts count chunk)
    (hleast : least ∈ shares parts count chunk) : most ≤ least + max chunk 1 := by
  obtain ⟨i, -, rfl⟩ := List.mem_map.mp hmost
  obtain ⟨j, -, rfl⟩ := List.mem_map.mp hleast
  exact roundRobinShare_le_add (by omega) parts count i j

end Order

/-! ### Chunks in turn -/

/-- What part `i` has when chunks are dealt out in turn: a chunk for every turn that is its own, and
the incomplete chunk if the turn after the last whole chunk is its own. -/
def dealtInTurn (parts count chunk i : Nat) : Nat :=
  chunk * Nat.count (fun turn => turn % parts = i) (count / chunk) +
    if count / chunk % parts = i then count % chunk else 0

/-- The share in closed form is what the part has when chunks are dealt out in turn. -/
theorem roundRobinShare_eq_dealtInTurn {parts i : Nat} (hi : i < parts) (count chunk : Nat) :
    roundRobinShare parts count chunk i = dealtInTurn parts count chunk i := by
  have hturns : Nat.count (fun turn => turn % parts = i) (count / chunk) =
      count / chunk / parts + if i < count / chunk % parts then 1 else 0 := by
    have hcount := Nat.count_modEq_card (count / chunk) (by omega : 0 < parts) i
    simpa only [Nat.ModEq, Nat.mod_eq_of_lt hi] using hcount
  rw [dealtInTurn, hturns, Nat.mul_add, roundRobinShare]
  split_ifs <;> omega

/-- Each share is what its part has when chunks are dealt out in turn. -/
theorem getElem?_shares {parts i : Nat} (hi : i < parts) (count chunk : Nat) :
    (shares parts count chunk)[i]? = some (dealtInTurn parts count (max chunk 1) i) := by
  rw [← roundRobinShare_eq_dealtInTurn hi]
  simp [shares, hi]

/-- The first entry of a list that never increases is the largest. -/
theorem head?_eq_foldl_max {counts : List Nat} (hsorted : counts.Pairwise (· ≥ ·))
    (hcounts : counts ≠ []) : counts.head? = some (counts.foldl max 0) := by
  cases counts with
  | nil => exact absurd rfl hcounts
  | cons first rest =>
    -- The maximum so far stays the first entry, whatever part of the rest has been read.
    have hkept : ∀ later : List Nat, (∀ entry ∈ later, entry ≤ first) →
        later.foldl max first = first := by
      intro later hlater
      induction later with
      | nil => rfl
      | cons entry later ih =>
        rw [List.foldl_cons, max_eq_left (hlater entry (by simp))]
        exact ih fun other hother => hlater other (by simp [hother])
    rw [List.head?_cons, List.foldl_cons, Nat.zero_max,
      hkept rest (List.pairwise_cons.mp hsorted).1]

/-! ### Shares and displacements in words -/

/-- A result that fits in the word is the result. -/
theorem inWord_eq_some {values result : Nat} (hresult : result < values) :
    inWord values result = some result :=
  if_pos hresult

/-- All that is added up and multiplied for a share is part of the share. -/
theorem roundRobinShareInWords_eq {parts count chunk i : Nat}
    (hfits : roundRobinShare parts count chunk i < UInt64.size) :
    roundRobinShareInWords parts count chunk i = some (roundRobinShare parts count chunk i) := by
  have hwhole : chunk * (count / chunk / parts) < UInt64.size :=
    lt_of_le_of_lt (Nat.le_add_right _ _) hfits
  -- The parts differ in what they have besides the whole rounds.
  simp only [roundRobinShareInWords, roundRobinShare, inWord_eq_some hwhole,
    Option.bind_eq_bind, Option.bind_some] at hfits ⊢
  split_ifs at hfits ⊢ with hbefore hturn
  · exact inWord_eq_some hfits
  · exact inWord_eq_some hfits
  · rfl

/-- What the counts come to in words is what they come to without a limit, also when they are
refused. -/
theorem roundRobinCountsInWords_eq {parts : Nat} (hparts : 0 < parts) (count chunk : Nat) :
    (roundRobinCountsInWords parts count chunk).run =
      some (roundRobinCounts parts count chunk) := by
  by_cases hfits : count < UInt32.size
  · have hwords : UInt32.size < UInt64.size := by decide
    have hshare : ∀ i ∈ List.range parts,
        (do toCount (← roundRobinShareInWords parts count (max chunk 1) i) :
          ExceptT Error Option Nat) = pure (roundRobinShare parts count (max chunk 1) i) := by
      intro i hi
      have hle := roundRobinShare_le count (max chunk 1) (List.mem_range.mp hi)
      rw [roundRobinShareInWords_eq (by omega)]
      change ExceptT.mk (some (toCount (roundRobinShare parts count (max chunk 1) i))) = _
      rw [toCount_eq_ok (by omega)]
      rfl
    rw [roundRobinCounts_eq_ok hfits, roundRobinCountsInWords, toCount_eq_ok hfits,
      if_neg (by omega), mapM_eq_pure hshare]
    rfl
  · rw [roundRobinCounts_eq_error hfits, roundRobinCountsInWords, toCount_eq_error hfits]
    rfl

/-- A count that does not fit in a header is refused before anything is divided. -/
theorem roundRobinCountsInWords_of_large {count : Nat} (hlarge : ¬ count < UInt32.size)
    (parts chunk : Nat) :
    (roundRobinCountsInWords parts count chunk).run =
      some (.error (.invalidMessageSize count)) := by
  rw [roundRobinCountsInWords, toCount_eq_error hlarge]
  rfl

/-- Behind a first block, each block starts that much later. -/
theorem displacement_cons_succ (count : Nat) (rest : List Nat) (i : Nat) :
    displacement (count :: rest) (i + 1) = count + displacement rest i :=
  rfl

/-- No sum is larger than the end of the last block. -/
theorem displacementsInWords_eq {offset : Nat} {counts : List Nat}
    (hfits : offset + total counts < UInt32.size) :
    displacementsInWords offset counts =
      some ((List.range counts.length).map fun i => offset + displacement counts i) := by
  induction counts generalizing offset with
  | nil => rfl
  | cons count rest ih =>
    have hsum : total (count :: rest) = count + total rest := rfl
    have hnext : offset + count < UInt32.size := by omega
    rw [displacementsInWords, inWord_eq_some hnext, Option.bind_eq_bind, Option.bind_some,
      ih (by omega), Option.bind_eq_bind, Option.bind_some, List.length_cons,
      List.range_succ_eq_map, List.map_cons, List.map_map]
    simp only [Function.comp_def, displacement_cons_succ, Nat.add_assoc]
    rfl

/-- The displacements of counts that add up to a number which fits in a header. -/
theorem displacementsInWords_zero {counts : List Nat} (hfits : total counts < UInt32.size) :
    displacementsInWords 0 counts = some (displacements counts) := by
  rw [displacementsInWords_eq (by omega)]
  simp only [Nat.zero_add]
  rfl

/-! ### Dealing out -/

/-- **Shares dealt out round robin partition the vector.** A count that does not fit in a message
header is refused, whatever the number of parts and the chunk.

Every other count is dealt out to at least one part, and nothing that is added up or multiplied on
the way leaves its word of 32 or 64 bits: computed in words, the counts and the displacements are
the same. Each part has the chunks of its turns. The blocks follow one another without gaps, and
each element of the vector is in exactly one of them. No share is larger than the one before it, so
that the first one is the largest, which is the room that every rank takes for a share. Any two
shares differ by one chunk at most. A chunk of zero elements counts as one element. -/
theorem shares_partition_vector (parts count chunk : Nat) :
    (¬ count < UInt32.size →
      roundRobinCounts parts count chunk = .error (.invalidMessageSize count) ∧
        (roundRobinCountsInWords parts count chunk).run =
          some (.error (.invalidMessageSize count))) ∧
      (0 < parts → count < UInt32.size →
        ∃ counts displs : List Nat,
          roundRobinCounts parts count chunk = .ok counts ∧
            (roundRobinCountsInWords parts count chunk).run = some (.ok counts) ∧
            displacements counts = displs ∧
            displacementsInWords 0 counts = some displs ∧
            counts.length = parts ∧
            (∀ i < parts, counts[i]? = some (dealtInTurn parts count (max chunk 1) i)) ∧
            Partitions counts displs count ∧
            counts.Pairwise (· ≥ ·) ∧
            counts.head? = some (counts.foldl max 0) ∧
            ∀ most ∈ counts, ∀ least ∈ counts, most ≤ least + max chunk 1) := by
  constructor
  · intro hlarge
    exact ⟨roundRobinCounts_eq_error hlarge parts chunk,
      roundRobinCountsInWords_of_large hlarge parts chunk⟩
  · intro hparts hfits
    have hlength := length_shares parts count chunk
    have hcounts : shares parts count chunk ≠ [] := List.ne_nil_of_length_pos (by omega)
    have hall : displacement (shares parts count chunk) (shares parts count chunk).length =
        count := by
      rw [hlength, displacement_shares_all hparts]
    have htotal : total (shares parts count chunk) < UInt32.size := by
      rw [displacement, List.take_length] at hall
      rwa [hall]
    have hpartitions := partitions_displacements hcounts
    rw [hall] at hpartitions
    have hsorted := pairwise_shares parts count chunk
    refine ⟨shares parts count chunk, displacements (shares parts count chunk),
      roundRobinCounts_eq_ok hfits chunk, ?_, rfl, displacementsInWords_zero htotal, hlength,
      fun i hi => getElem?_shares hi count chunk, hpartitions, hsorted,
      head?_eq_foldl_max hsorted hcounts,
      fun most hmost least hleast => le_add_of_mem_shares hmost hleast⟩
    rw [roundRobinCountsInWords_eq hparts, roundRobinCounts_eq_ok hfits]

/-- The largest vector that fits, in chunks of four among five parts: three elements are left over
for the fourth part. One element more is refused, also without parts. -/
theorem shares_partition_vector_largest :
    let counts := [858993460, 858993460, 858993460, 858993459, 858993456]
    let displs := [0, 858993460, 1717986920, 2576980380, 3435973839]
    (0 < 5 ∧ 4294967295 < UInt32.size ∧ ¬ 4294967296 < UInt32.size) ∧
      (roundRobinCountsInWords 0 4294967296 4).run =
        some (.error (.invalidMessageSize 4294967296)) ∧
      roundRobinCounts 5 4294967295 4 = .ok counts ∧
      (roundRobinCountsInWords 5 4294967295 4).run = some (.ok counts) ∧
      displacementsInWords 0 counts = some displs ∧
      Partitions counts displs 4294967295 ∧
      counts.head? = some (counts.foldl max 0) := by
  intro counts displs
  obtain ⟨hrefused, -⟩ := shares_partition_vector 0 4294967296 4
  obtain ⟨-, hdealt⟩ := shares_partition_vector 5 4294967295 4
  obtain ⟨counts', displs', hcounts, hwords, -, hdispls, -, -, hpartitions, -, hlargest,
    -⟩ := hdealt (by decide) (by decide)
  have hcounts' : counts = counts' :=
    Except.ok.inj ((by decide +kernel : .ok counts = roundRobinCounts 5 4294967295 4).trans hcounts)
  subst hcounts'
  have hdispls' : displs = displs' := Option.some.inj (Eq.trans (by decide) hdispls)
  subst hdispls'
  exact ⟨by decide, (hrefused (by decide)).2, hcounts, hwords, hdispls, hpartitions, hlargest⟩

end Layout

end CollectiveTuner
