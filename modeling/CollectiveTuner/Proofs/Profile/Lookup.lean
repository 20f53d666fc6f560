import CollectiveTuner.Proofs.Profile.Sheets

/-!
# Looking sizes up

A size is looked up in the ranges of a profile from the first one on. The reported overlaps say
whether this order matters: where no two ranges overlap, at most one of them holds a size, and
every arrangement of the ranges gives the same answers.
-/

namespace CollectiveTuner.Profile

/-! ### The order of the reported pairs -/

/-- The order of pairs by their first and then by their second position. -/
def Precedes (pair other : Nat × Nat) : Prop :=
  pair.1 < other.1 ∨ pair.1 = other.1 ∧ pair.2 < other.2

/-- The overlapping pairs of ranges come in order. -/
theorem pairwise_overlapsFrom (ranges : List SizeRange) (first : Nat) :
    (overlapsFrom first ranges).Pairwise Precedes := by
  induction ranges generalizing first with
  | nil => exact .nil
  | cons range rest ih =>
    rw [overlapsFrom, List.pairwise_append]
    refine ⟨?_, ih (first + 1), ?_⟩
    · -- the pairs of the first range ascend with their second position
      have hpositions : (rest.zipIdx (first + 1)).Pairwise fun early late => early.2 < late.2 := by
        rw [← List.pairwise_map, List.zipIdx_map_snd]
        exact List.pairwise_lt_range'
      rw [List.pairwise_map]
      apply (hpositions.filter _).imp
      intro early late hlt
      exact .inr ⟨rfl, hlt⟩
    · -- all other pairs begin with a later range
      intro pair hpair other hother
      obtain ⟨later, -, rfl⟩ := List.mem_map.mp hpair
      obtain ⟨i, j, early, late, rfl, -⟩ := mem_overlapsFrom.mp hother
      left
      dsimp only
      omega

/-! ### The deciding range -/

variable {profile : Profile} {size : Nat}

/-- The range at a position holds the size, and no earlier range does. -/
def IsFirstHolding (profile : Profile) (size position : Nat) (range : SizeRange) : Prop :=
  profile.ranges[position]? = some range ∧ range.contains size = true ∧
    ∀ earlier < position, ∀ other, profile.ranges[earlier]? = some other →
      other.contains size = false

/-- The first range that contains a size is found. -/
theorem find?_eq_some_iff_isFirstHolding {range : SizeRange} :
    (profile.ranges.find? fun range => range.contains size) = some range ↔
      ∃ position, profile.IsFirstHolding size position range := by
  rw [List.find?_eq_some_iff_getElem]
  constructor
  · rintro ⟨hholds, position, hposition, rfl, hearlier⟩
    refine ⟨position, List.getElem?_eq_getElem hposition, hholds, ?_⟩
    intro earlier hlt other hother
    obtain ⟨hin, rfl⟩ := List.getElem?_eq_some_iff.mp hother
    simpa using hearlier earlier hlt
  · rintro ⟨position, hrange, hholds, hearlier⟩
    obtain ⟨hposition, rfl⟩ := List.getElem?_eq_some_iff.mp hrange
    refine ⟨hholds, position, hposition, rfl, ?_⟩
    intro earlier hlt
    have hin : earlier < profile.ranges.length := by omega
    have hnot := hearlier earlier hlt _ (List.getElem?_eq_getElem hin)
    simp [hnot]

/-- An answer is the algorithm of the first range that holds the size. -/
theorem algorithmFor_eq_ok_iff {id : AlgorithmId} :
    profile.algorithmFor size = .ok id ↔
      ∃ position range, profile.IsFirstHolding size position range ∧ range.algorithm = id := by
  unfold algorithmFor
  constructor
  · intro hanswer
    cases hfound : profile.ranges.find? fun range => range.contains size with
    | none =>
      rw [hfound] at hanswer
      cases hanswer
    | some range =>
      rw [hfound] at hanswer
      obtain ⟨position, hfirst⟩ := find?_eq_some_iff_isFirstHolding.mp hfound
      exact ⟨position, range, hfirst, Except.ok.inj hanswer⟩
  · rintro ⟨position, range, hfirst, rfl⟩
    rw [find?_eq_some_iff_isFirstHolding.mpr ⟨position, hfirst⟩]
    rfl

/-- There is no answer exactly when no range holds the size. -/
theorem algorithmFor_eq_error_iff {error : Error} :
    profile.algorithmFor size = .error error ↔
      error = .rangeNotMatched profile.collective size ∧
        ∀ range ∈ profile.ranges, range.contains size = false := by
  have hnone : (profile.ranges.find? fun range => range.contains size) = none ↔
      ∀ range ∈ profile.ranges, range.contains size = false := by
    simp only [List.find?_eq_none, Bool.not_eq_true]
  rw [← hnone]
  unfold algorithmFor
  constructor
  · intro hanswer
    cases hfound : profile.ranges.find? fun range => range.contains size with
    | none =>
      rw [hfound] at hanswer
      exact ⟨(Except.error.inj hanswer).symm, rfl⟩
    | some range =>
      rw [hfound] at hanswer
      cases hanswer
  · rintro ⟨rfl, hfound⟩
    rw [hfound]
    rfl

/-! ### Ranges that do not overlap -/

/-- At most one of the ranges holds any one size. -/
def IsUnambiguous (profile : Profile) : Prop :=
  ∀ (size first second : Nat) (early late : SizeRange),
    profile.ranges[first]? = some early → profile.ranges[second]? = some late →
    early.contains size = true → late.contains size = true → first = second

/-- A profile is unambiguous when no two of its ranges overlap. -/
theorem isUnambiguous_iff (hproper : ∀ range ∈ profile.ranges, range.start ≤ range.stop) :
    profile.IsUnambiguous ↔ profile.overlappingRanges = [] := by
  constructor
  · intro hunambiguous
    rw [List.eq_nil_iff_forall_not_mem]
    rintro ⟨first, second⟩ hmem
    obtain ⟨hlt, early, late, hearly, hlate, size, hin, hin'⟩ :=
      (mem_overlappingRanges hproper).mp hmem
    have heq := hunambiguous size first second early late hearly hlate hin hin'
    omega
  · intro hempty size first second early late hearly hlate hin hin'
    have hnot (first second : Nat) : ¬ profile.OverlapAt first second := by
      rw [← mem_overlappingRanges hproper, hempty]
      exact List.not_mem_nil
    rcases Nat.lt_trichotomy first second with hlt | heq | hgt
    · exact absurd ⟨hlt, early, late, hearly, hlate, size, hin, hin'⟩ (hnot first second)
    · exact heq
    · exact absurd ⟨hgt, late, early, hlate, hearly, size, hin', hin⟩ (hnot second first)

/-- A search that at most one position can satisfy does not depend on the order. -/
theorem find?_eq_of_perm {α : Type} {p : α → Bool} {items others : List α}
    (honce : items.Pairwise fun first second => ¬ (p first = true ∧ p second = true))
    (hperm : others.Perm items) : others.find? p = items.find? p := by
  have hfiltered := hperm.filter p
  have hsingle : (items.filter p).Pairwise fun _ _ => False := by
    rw [List.pairwise_filter]
    apply honce.imp
    intro first second hnot hfirst hsecond
    exact hnot ⟨hfirst, hsecond⟩
  have heq : others.filter p = items.filter p := by
    generalize items.filter p = found at hfiltered hsingle
    match found, hsingle with
    | [], _ => exact hfiltered.eq_nil
    | [item], _ => exact List.perm_singleton.mp hfiltered
    | first :: second :: rest, hsingle =>
      have hboth := (List.pairwise_cons.mp hsingle).1 second List.mem_cons_self
      exact hboth.elim
  rw [← List.head?_filter, heq, List.head?_filter]

/-- Where at most one range holds a size, the ranges may be listed in any order. -/
theorem IsUnambiguous.algorithmFor_eq_of_perm (hunambiguous : profile.IsUnambiguous)
    {ranges : List SizeRange} (hperm : ranges.Perm profile.ranges) (size : Nat) :
    ({ profile with ranges } : Profile).algorithmFor size = profile.algorithmFor size := by
  have honce : profile.ranges.Pairwise fun early late =>
      ¬ (early.contains size = true ∧ late.contains size = true) := by
    rw [List.pairwise_iff_getElem]
    rintro first second hfirst hsecond hlt ⟨hin, hin'⟩
    have heq := hunambiguous size first second _ _ (List.getElem?_eq_getElem hfirst)
      (List.getElem?_eq_getElem hsecond) hin hin'
    omega
  unfold algorithmFor
  dsimp only
  rw [find?_eq_of_perm honce hperm]

/-- **The reported overlaps are the pairs of ranges with a common size, and they tell whether the
order of the ranges matters.** Let no range of a profile be reversed, and let all sizes in it have
64 bits. The reported pairs ascend, and they are the pairs of positions whose ranges have a size in
common. A lookup gives the algorithm of the first range that holds the size, and fails exactly when
there is none. When no pair is reported, at most one range holds any one size, and every
arrangement of the ranges gives the same answers. -/
theorem overlaps_decide_lookup (hproper : ∀ range ∈ profile.ranges,
      range.start ≤ range.stop ∧ range.stop < UInt64.size) :
    profile.overlappingRanges.Pairwise Precedes ∧
    (∀ first second, (first, second) ∈ profile.overlappingRanges ↔
      first < second ∧ ∃ early late, profile.ranges[first]? = some early ∧
        profile.ranges[second]? = some late ∧
        ∃ size < UInt64.size, early.contains size = true ∧ late.contains size = true) ∧
    (∀ size id, profile.algorithmFor size = .ok id ↔
      ∃ position range, profile.IsFirstHolding size position range ∧ range.algorithm = id) ∧
    (∀ size error, profile.algorithmFor size = .error error ↔
      error = .rangeNotMatched profile.collective size ∧
        ∀ range ∈ profile.ranges, range.contains size = false) ∧
    (profile.overlappingRanges = [] → profile.IsUnambiguous ∧
      ∀ ranges, ranges.Perm profile.ranges → ∀ size,
        ({ profile with ranges } : Profile).algorithmFor size = profile.algorithmFor size) := by
  have hordered : ∀ range ∈ profile.ranges, range.start ≤ range.stop :=
    fun range hmem => (hproper range hmem).1
  refine ⟨pairwise_overlapsFrom _ _, fun first second => ?_, fun size id => algorithmFor_eq_ok_iff,
    fun size error => algorithmFor_eq_error_iff, fun hempty => ?_⟩
  · rw [mem_overlappingRanges hordered]
    constructor
    · rintro ⟨hlt, early, late, hearly, hlate, size, hin, hin'⟩
      have hbound := (hproper early (List.mem_of_getElem? hearly)).2
      have hle : size ≤ early.stop := by
        simp only [SizeRange.contains, Bool.and_eq_true, decide_eq_true_eq] at hin
        exact hin.2
      exact ⟨hlt, early, late, hearly, hlate, size, Nat.lt_of_le_of_lt hle hbound, hin, hin'⟩
    · rintro ⟨hlt, early, late, hearly, hlate, size, -, hin, hin'⟩
      exact ⟨hlt, early, late, hearly, hlate, size, hin, hin'⟩
  · have hunambiguous := (isUnambiguous_iff hordered).mpr hempty
    exact ⟨hunambiguous, fun ranges hperm size => hunambiguous.algorithmFor_eq_of_perm hperm size⟩

/-- The first range overlaps the second, which shares the greatest size with the third. Without the
second range none overlap, and the other two may be exchanged. -/
theorem overlaps_decide_lookup_bcast :
    let first : SizeRange := ⟨0, 9, 1⟩
    let second : SizeRange := ⟨5, 18446744073709551615, 2⟩
    let third : SizeRange := ⟨18446744073709551615, 18446744073709551615, 0⟩
    let profile : Profile :=
      { collective := .bcast, groupSize := 4, ranges := [first, second, third] }
    let rest : Profile := { collective := .bcast, groupSize := 4, ranges := [first, third] }
    ((1, 2) ∈ profile.overlappingRanges ∧
      profile.algorithmFor 18446744073709551615 = .ok 2) ∧
    ({ rest with ranges := [third, first] } : Profile).algorithmFor 7 = rest.algorithmFor 7 := by
  intro first second third profile rest
  constructor
  · obtain ⟨-, hpairs, hanswers, -⟩ := @overlaps_decide_lookup profile (by decide)
    constructor
    · apply (hpairs 1 2).mpr
      exact ⟨by decide, second, third, rfl, rfl, 18446744073709551615, by decide⟩
    · apply (hanswers 18446744073709551615 2).mpr
      refine ⟨1, second, ⟨rfl, by decide, ?_⟩, rfl⟩
      intro earlier hlt other hother
      obtain rfl : earlier = 0 := by omega
      obtain rfl := Option.some.inj hother
      decide
  · obtain ⟨-, -, -, -, harranged⟩ := @overlaps_decide_lookup rest (by decide)
    exact (harranged (by decide)).2 [third, first] (List.Perm.swap _ _ _) 7

end CollectiveTuner.Profile
