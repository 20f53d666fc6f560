import CollectiveTuner.Profile.Reader
import Mathlib.Data.List.Forall2
import Mathlib.Data.List.Nodup

/-!
# What a profile text says

A sheet is the content of a profile text before anything is dropped from it: all alias lines
with the names of their algorithms, and all range lines with their aliases. This module says
which rows of words write down a sheet, and which profile and how many reports of dropped lines
come from it.
-/

namespace CollectiveTuner

/-- A name stands for an identifier exactly when some choice has both. -/
theorem Choice.idOf_eq_ok_iff {op : Collective} {name : String} {id : AlgorithmId} :
    Choice.idOf op.choices name = .ok id ↔ ({ id, name } : Choice) ∈ op.choices := by
  have hdistinct : ∀ first ∈ op.choices, ∀ second ∈ op.choices,
      first.name = second.name → first = second := by
    cases op <;> decide
  unfold Choice.idOf
  constructor
  · intro hid
    split at hid
    · next choice hfound =>
      have hname : choice.name = name := by simpa using List.find?_some hfound
      have hmem := List.mem_of_find?_eq_some hfound
      rwa [← Except.ok.inj hid, ← hname]
    · cases hid
  · intro hmem
    have hsome : (op.choices.find? fun choice => choice.name == name).isSome := by
      rw [List.find?_isSome]
      exact ⟨_, hmem, by simp⟩
    obtain ⟨choice, hfound⟩ := Option.isSome_iff_exists.mp hsome
    have hname : choice.name = name := by simpa using List.find?_some hfound
    have hchoice := hdistinct _ (List.mem_of_find?_eq_some hfound) _ hmem hname
    rw [hfound, hchoice]
    rfl

/-- A name that stands for nothing is reported as such. -/
theorem Choice.eq_of_idOf_eq_error {choices : List Choice} {name : String} {error : Error}
    (herror : Choice.idOf choices name = .error error) : error = .invalidAlgorithmName name := by
  unfold Choice.idOf at herror
  split at herror
  · cases herror
  · exact (Except.error.inj herror).symm

/-- An identifier that a name stands for is registered. -/
theorem Choice.registered_of_idOf {op : Collective} {name : String} {id : AlgorithmId}
    (hid : Choice.idOf op.choices name = .ok id) :
    (op.choices.any fun choice => choice.id == id) = true := by
  rw [List.any_eq_true]
  exact ⟨_, Choice.idOf_eq_ok_iff.mp hid, by simp⟩

/-- A key that tells the operations apart finds each of them. -/
theorem Collective.find?_all_eq_some_iff {key : Collective → String}
    (hkey : ∀ first ∈ all, ∀ second ∈ all, key first = key second → first = second) {name : String}
    {op : Collective} : (all.find? fun op => key op == name) = some op ↔ key op = name := by
  constructor
  · intro hfound
    simpa using List.find?_some hfound
  · intro hname
    have hsome : (all.find? fun op => key op == name).isSome := by
      rw [List.find?_isSome]
      exact ⟨op, mem_all op, by simpa using hname⟩
    obtain ⟨found, hfound⟩ := Option.isSome_iff_exists.mp hsome
    have hsame : key found = name := by simpa using List.find?_some hfound
    rw [hfound, hkey found (mem_all found) op (mem_all op) (hsame.trans hname.symm)]

/-- The operation of a name is the one that has the name. -/
theorem Collective.ofName?_eq_some_iff {name : String} {op : Collective} :
    ofName? name = some op ↔ op.name = name :=
  find?_all_eq_some_iff (by decide)

namespace Profile

/-- The rows of a text: the words of its lines, without the lines that are empty after trimming
or begin with `#`. -/
def rows (text : String) : List (List String) :=
  (((Text.lines text.toList).map Text.trim).filter fun line =>
      !line.isEmpty && line.head? ≠ some '#').map fun line =>
    (Text.words line).map String.ofList

/-- A line of the range table, as it is written. -/
structure WrittenRange where
  /-- The least size, in bytes. -/
  start : Nat
  /-- The greatest size, in bytes. -/
  stop : Nat
  /-- The alias of the algorithm. -/
  aliasName : String
  deriving DecidableEq, Repr

/-- What a profile text says. -/
structure Sheet where
  /-- The operation. -/
  collective : Collective
  /-- The number of ranks in the measured group. -/
  groupSize : Nat
  /-- The alias table: aliases with the names of algorithms. -/
  aliases : List (String × String)
  /-- The range table. -/
  ranges : List WrittenRange
  deriving DecidableEq, Repr

/-- The row begins with a number of at most `bits` bits. -/
def IsNumberRow (bits : Nat) (row : List String) (value : Nat) : Prop :=
  ∃ word, row.head? = some word ∧ Text.unsigned? bits word.toList = some value

/-- The row begins with an alias and the name of an algorithm. -/
def IsAliasRow (row : List String) (entry : String × String) : Prop :=
  ∃ rest, row = entry.1 :: entry.2 :: rest

/-- The row begins with the two ends of a range and an alias. -/
def IsRangeRow (row : List String) (range : WrittenRange) : Prop :=
  ∃ start stop rest, row = start :: stop :: range.aliasName :: rest ∧
    Text.unsigned? 64 start.toList = some range.start ∧
    Text.unsigned? 64 stop.toList = some range.stop ∧ range.start ≤ range.stop

namespace Sheet

variable (sheet : Sheet)

/-- The rows write the sheet down. -/
def IsWrittenAs (rows : List (List String)) : Prop :=
  ∃ nameRow sizeRow aliasCountRow aliasRows rangeCountRow rangeRows,
    rows = nameRow :: sizeRow :: aliasCountRow :: (aliasRows ++ rangeCountRow :: rangeRows) ∧
    nameRow.head? = some sheet.collective.name ∧
    (IsNumberRow 32 sizeRow sheet.groupSize ∧ 0 < sheet.groupSize) ∧
    IsNumberRow 64 aliasCountRow sheet.aliases.length ∧
    List.Forall₂ IsAliasRow aliasRows sheet.aliases ∧
    (IsNumberRow 64 rangeCountRow sheet.ranges.length ∧ 0 < sheet.ranges.length) ∧
    List.Forall₂ IsRangeRow rangeRows sheet.ranges

/-- The rows begin with rows that write the sheet down. What comes after them does not matter. -/
def Begins (rows : List (List String)) : Prop :=
  ∃ written, written <+: rows ∧ sheet.IsWrittenAs written

/-- The algorithms that the sheet names for an alias, without the names that its operation does
not know. -/
def algorithmsOf (aliasName : String) : List AlgorithmId :=
  (sheet.aliases.filter fun entry => entry.1 = aliasName).filterMap fun entry =>
    (Choice.idOf sheet.collective.choices entry.2).toOption

/-- The algorithm of a range: the last one that the sheet names for its alias. -/
def algorithmOf? (range : WrittenRange) : Option AlgorithmId :=
  (sheet.algorithmsOf range.aliasName).getLast?

/-- The profile that the sheet stands for: its ranges with a known alias. -/
def profile : Profile where
  collective := sheet.collective
  groupSize := sheet.groupSize
  ranges := sheet.ranges.filterMap fun range =>
    (sheet.algorithmOf? range).map fun algorithm =>
      { start := range.start, stop := range.stop, algorithm }

/-- The number of alias lines that name no algorithm of the operation. -/
def unknownNames : Nat :=
  sheet.aliases.countP fun entry =>
    (Choice.idOf sheet.collective.choices entry.2).toOption.isNone

/-- The number of range lines whose alias stands for nothing. -/
def unknownAliases : Nat :=
  sheet.ranges.countP fun range => (sheet.algorithmOf? range).isNone

/-- What is reported of an alias line. -/
def aliasComplaints (choices : List Choice) (entry : String × String) : List String :=
  match Choice.idOf choices entry.2 with
  | .ok _ => []
  | .error _ =>
    [s!"{(Error.invalidAlgorithmName entry.2).message}, dropping alias '{entry.1}'"]

/-- What is reported of a range line whose alias stands for this. -/
def rangeComplaints (algorithm : Option AlgorithmId) (range : WrittenRange) : List String :=
  match algorithm with
  | some _ => []
  | none =>
    [s!"unknown alias '{range.aliasName}', dropping range {range.start}..={range.stop}"]

/-- What is reported of the lines of the sheet. -/
def lineComplaints : List String :=
  sheet.aliases.flatMap (aliasComplaints sheet.collective.choices) ++
    sheet.ranges.flatMap fun range => rangeComplaints (sheet.algorithmOf? range) range

/-- What is reported of the sheet: a line for each alias and range that is dropped, and one for
each overlap of the ranges that are kept. -/
def complaints : List String :=
  sheet.lineComplaints ++ sheet.profile.overlappingRanges.map fun pair =>
    s!"ranges {pair.1} and {pair.2} overlap, the earlier one wins"

/-- There is one complaint for each unknown name and each unknown alias. -/
theorem length_lineComplaints :
    sheet.lineComplaints.length = sheet.unknownNames + sheet.unknownAliases := by
  have hcount {α : Type} {complain : α → List String} {dropped : α → Bool} (items : List α)
      (hcomplain : ∀ item, (complain item).length = if dropped item then 1 else 0) :
      (items.flatMap complain).length = items.countP dropped := by
    induction items with
    | nil => rfl
    | cons item rest ih =>
      rw [List.flatMap_cons, List.length_append, ih, hcomplain, List.countP_cons, Nat.add_comm]
  rw [lineComplaints, List.length_append]
  refine congrArg₂ _ (hcount _ fun entry => ?_) (hcount _ fun range => ?_)
  · unfold aliasComplaints
    cases Choice.idOf sheet.collective.choices entry.2 <;> rfl
  · unfold rangeComplaints
    cases sheet.algorithmOf? range <;> rfl

variable {sheet}

/-- The algorithm of a range is registered for the operation of the sheet. -/
theorem registered_of_algorithmOf {range : WrittenRange} {id : AlgorithmId}
    (hid : sheet.algorithmOf? range = some id) :
    (sheet.collective.choices.any fun choice => choice.id == id) = true := by
  have hmem : id ∈ sheet.algorithmsOf range.aliasName := List.mem_of_getLast? hid
  obtain ⟨entry, -, hentry⟩ := List.mem_filterMap.mp hmem
  cases hname : Choice.idOf sheet.collective.choices entry.2 with
  | error error =>
    rw [hname] at hentry
    cases hentry
  | ok found =>
    rw [hname] at hentry
    obtain rfl := Option.some.inj hentry
    exact Choice.registered_of_idOf hname

/-- Every range of the profile was written in the sheet, and its algorithm is registered. -/
theorem exists_of_mem_ranges {range : SizeRange} (hmem : range ∈ sheet.profile.ranges) :
    ∃ written ∈ sheet.ranges, written.start = range.start ∧ written.stop = range.stop ∧
      (sheet.collective.choices.any fun choice => choice.id == range.algorithm) = true := by
  obtain ⟨written, hwritten, hrange⟩ := List.mem_filterMap.mp hmem
  obtain ⟨id, hid, rfl⟩ := Option.map_eq_some_iff.mp hrange
  exact ⟨written, hwritten, rfl, rfl, registered_of_algorithmOf hid⟩

/-- No range of a written sheet is reversed. -/
theorem IsWrittenAs.start_le_stop {rows : List (List String)} (hsheet : sheet.IsWrittenAs rows)
    {written : WrittenRange} (hmem : written ∈ sheet.ranges) : written.start ≤ written.stop := by
  obtain ⟨_, _, _, _, _, rangeRows, -, -, -, -, -, -, hranges⟩ := hsheet
  obtain ⟨hlength, hrows⟩ := List.forall₂_iff_get.mp hranges
  obtain ⟨i, rfl⟩ := List.get_of_mem hmem
  obtain ⟨_, _, _, -, -, -, hle⟩ := hrows i (by rw [hlength]; exact i.isLt) i.isLt
  exact hle

/-- A sheet takes at least five rows. -/
theorem Begins.five_le_length {rows : List (List String)} (hsheet : sheet.Begins rows) :
    5 ≤ rows.length := by
  obtain ⟨_, hprefix, _, _, _, _, _, _, rfl, -, -, -, -, ⟨-, hnonempty⟩, hranges⟩ := hsheet
  have hlength := hranges.length_eq
  have hle := hprefix.length_le
  simp only [List.length_cons, List.length_append] at hle
  omega

/-- The reader's alias table, which lacks the unknown names, gives an alias the same algorithm. -/
theorem resolveAlias_eq (aliasName : String) :
    Reader.resolveAlias (sheet.aliases.filterMap fun entry =>
        (Choice.idOf sheet.collective.choices entry.2).toOption.map (entry.1, ·)) aliasName =
      (sheet.algorithmsOf aliasName).getLast? := by
  have hknown : ((sheet.aliases.filterMap fun entry =>
      (Choice.idOf sheet.collective.choices entry.2).toOption.map (entry.1, ·)).filter
        fun entry => entry.1 == aliasName).map Prod.snd = sheet.algorithmsOf aliasName := by
    unfold algorithmsOf
    induction sheet.aliases with
    | nil => rfl
    | cons entry rest ih =>
      rw [List.filterMap_cons, List.filter_cons]
      cases hid : Choice.idOf sheet.collective.choices entry.2 <;>
        by_cases hname : entry.1 = aliasName <;> simp_all [Except.toOption]
  rw [Reader.resolveAlias, ← List.head?_filter, List.filter_reverse, List.head?_reverse,
    ← List.getLast?_map, hknown]

end Sheet

/-! ### Overlaps -/

/-- Two positions hold ranges with a size in common, the first before the second. -/
def OverlapAt (profile : Profile) (first second : Nat) : Prop :=
  first < second ∧ ∃ early late, profile.ranges[first]? = some early ∧
    profile.ranges[second]? = some late ∧
    ∃ size, early.contains size = true ∧ late.contains size = true

/-- Two proper ranges overlap when some size is in both. -/
theorem overlaps_iff {early late : SizeRange} (hearly : early.start ≤ early.stop)
    (hlate : late.start ≤ late.stop) :
    early.overlaps late = true ↔
      ∃ size, early.contains size = true ∧ late.contains size = true := by
  simp only [SizeRange.overlaps, SizeRange.contains, Bool.and_eq_true, decide_eq_true_eq]
  constructor
  · intro hoverlap
    exact ⟨max early.start late.start, by omega, by omega⟩
  · rintro ⟨size, hin, hin'⟩
    omega

/-- The overlapping pairs from a position on are those of ranges behind it that overlap. -/
theorem mem_overlapsFrom {ranges : List SizeRange} {first : Nat} {pair : Nat × Nat} :
    pair ∈ overlapsFrom first ranges ↔
      ∃ i j early late, pair = (first + i, first + j) ∧ i < j ∧ ranges[i]? = some early ∧
        ranges[j]? = some late ∧ early.overlaps late = true := by
  induction ranges generalizing first with
  | nil => simp [overlapsFrom]
  | cons range rest ih =>
    simp only [overlapsFrom, List.mem_append, List.mem_map, List.mem_filter, ih]
    constructor
    · rintro (⟨⟨late, position⟩, ⟨hlate, hoverlap⟩, rfl⟩ | ⟨i, j, early, late, rfl, h⟩)
      · obtain ⟨hle, hget⟩ := List.mem_zipIdx_iff_le_and_getElem?_sub.mp hlate
        refine ⟨0, position - first, range, late, ?_, by omega, rfl, ?_, hoverlap⟩
        · simp; omega
        · obtain ⟨k, hk⟩ : ∃ k, position - first = k + 1 := ⟨position - first - 1, by omega⟩
          rw [hk, List.getElem?_cons_succ, ← hget]
          congr 1
          omega
      · exact ⟨i + 1, j + 1, early, late, by simp; omega, by omega, by simpa using h.2⟩
    · rintro ⟨i, j, early, late, rfl, hlt, hearly, hlate, hoverlap⟩
      obtain ⟨k, rfl⟩ : ∃ k, j = k + 1 := ⟨j - 1, by omega⟩
      cases i with
      | zero =>
        obtain rfl : range = early := by simpa using hearly
        left
        refine ⟨(late, first + (k + 1)), ⟨?_, hoverlap⟩, rfl⟩
        rw [List.mem_zipIdx_iff_le_and_getElem?_sub]
        refine ⟨by omega, ?_⟩
        rw [← hlate, List.getElem?_cons_succ]
        congr 1
        omega
      | succ i =>
        right
        exact ⟨i, k, early, late, by simp; omega, by omega, by simpa using hearly,
          by simpa using hlate, hoverlap⟩

/-- No overlapping pair comes twice. -/
theorem nodup_overlapsFrom (ranges : List SizeRange) (first : Nat) :
    (overlapsFrom first ranges).Nodup := by
  induction ranges generalizing first with
  | nil => exact List.nodup_nil
  | cons range rest ih =>
    rw [overlapsFrom, List.nodup_append]
    refine ⟨?_, ih (first + 1), ?_⟩
    · -- the second positions are all different
      refine List.Nodup.of_map Prod.snd ?_
      have hsublist : (((rest.zipIdx (first + 1)).filter fun later =>
          range.overlaps later.1).map Prod.snd).Sublist (List.range' (first + 1) rest.length) := by
        rw [← List.zipIdx_map_snd]
        exact List.filter_sublist.map _
      rw [List.map_map]
      exact hsublist.nodup List.nodup_range'
    · -- the first positions are different
      intro pair hpair other hother heq
      obtain ⟨later, -, rfl⟩ := List.mem_map.mp hpair
      obtain ⟨i, j, early, late, rfl, -⟩ := mem_overlapsFrom.mp hother
      have hfirst := congrArg Prod.fst heq
      dsimp only at hfirst
      omega

/-- The reported pairs are the overlaps, each of them once. -/
theorem mem_overlappingRanges {profile : Profile}
    (hproper : ∀ range ∈ profile.ranges, range.start ≤ range.stop) {first second : Nat} :
    (first, second) ∈ profile.overlappingRanges ↔ profile.OverlapAt first second := by
  rw [overlappingRanges, mem_overlapsFrom]
  constructor
  · rintro ⟨i, j, early, late, hpair, hlt, hearly, hlate, hoverlap⟩
    obtain ⟨rfl, rfl⟩ := Prod.mk.inj hpair
    rw [Nat.zero_add, Nat.zero_add]
    have hcommon := (overlaps_iff (hproper _ (List.mem_of_getElem? hearly))
      (hproper _ (List.mem_of_getElem? hlate))).mp hoverlap
    exact ⟨hlt, early, late, hearly, hlate, hcommon⟩
  · rintro ⟨hlt, early, late, hearly, hlate, hcommon⟩
    have hoverlap := (overlaps_iff (hproper _ (List.mem_of_getElem? hearly))
      (hproper _ (List.mem_of_getElem? hlate))).mpr hcommon
    exact ⟨first, second, early, late, by simp, hlt, hearly, hlate, hoverlap⟩

/-- No overlapping pair of a profile comes twice. -/
theorem nodup_overlappingRanges (profile : Profile) : profile.overlappingRanges.Nodup :=
  nodup_overlapsFrom profile.ranges 0

end Profile

end CollectiveTuner
