import CollectiveTuner.Proofs.Profile.Sheets
import CollectiveTuner.Proofs.Text.Lines

/-!
# Reading sheets

A reader gives a value when it gets from one cursor to another without a fault. `Gives` also
lists the warnings on the way. There is one rule for each step of the reader, and each rule
says exactly when its step gives a value, so that the rules for a whole profile hold in both
directions.
-/

namespace CollectiveTuner.Profile

/-! ### Lines that count -/

/-- The lines of a text without the blanks at their ends. -/
def contents (text : String) : List (List Char) :=
  (Text.lines text.toList).map Text.trim

/-- The words of a line that counts, and nothing for a line that does not. -/
def row? (line : List Char) : Option (List String) :=
  if (Text.trim line).isEmpty || (Text.trim line).head? = some '#' then none
  else some ((Text.words (Text.trim line)).map String.ofList)

/-- The lines that count, numbered, when `before` lines stand before them. -/
def numbered (before : Nat) : List (List Char) → List TextLine
  | [] => []
  | line :: rest =>
    match row? line with
    | some words => { number := before + 1, words } :: numbered (before + 1) rest
    | none => numbered (before + 1) rest

/-- Lines in sequence are numbered through. -/
theorem numbered_append (before : Nat) (lines more : List (List Char)) :
    numbered before (lines ++ more) =
      numbered before lines ++ numbered (before + lines.length) more := by
  induction lines generalizing before with
  | nil => rfl
  | cons line rest ih =>
    have hlength : before + 1 + rest.length = before + (line :: rest).length := by
      rw [List.length_cons]
      omega
    rw [List.cons_append, numbered, numbered, ih, hlength]
    cases row? line <;> rfl

/-- The words of the numbered lines are the rows of the lines. -/
theorem map_words_numbered (before : Nat) (lines : List (List Char)) :
    (numbered before lines).map TextLine.words = lines.filterMap row? := by
  induction lines generalizing before with
  | nil => rfl
  | cons line rest ih =>
    rw [numbered, List.filterMap_cons]
    cases row? line with
    | none => exact ih (before + 1)
    | some words => exact congrArg (words :: ·) (ih (before + 1))

/-- White space around a line does not change its row. -/
theorem row?_trim (line : List Char) : row? (Text.trim line) = row? line := by
  rw [row?, row?, Text.trim_trim]

/-- The significant lines of a text are its lines that have a row, with their numbers. -/
theorem significantLines_eq (text : String) :
    significantLines text = numbered 0 (contents text) := by
  have hfrom (lines : List (List Char)) (before : Nat) :
      ((lines.zipIdx before).filterMap fun entry =>
        if (Text.trim entry.1).isEmpty || (Text.trim entry.1).head? = some '#' then none
        else some
          { number := entry.2 + 1, words := (Text.words (Text.trim entry.1)).map String.ofList }) =
        numbered before (lines.map Text.trim) := by
    induction lines generalizing before with
    | nil => rfl
    | cons line rest ih =>
      rw [List.zipIdx_cons, List.filterMap_cons, ih, List.map_cons, numbered, row?_trim, row?]
      dsimp only
      by_cases hskipped : (Text.trim line).isEmpty || (Text.trim line).head? = some '#'
      · rw [if_pos hskipped, if_pos hskipped]
      · rw [if_neg hskipped, if_neg hskipped]
  exact hfrom (Text.lines text.toList) 0

/-- The words of the significant lines are the rows of the text. -/
theorem map_words_significantLines (text : String) :
    (significantLines text).map TextLine.words = rows text := by
  rw [significantLines_eq, map_words_numbered, contents, rows, List.filter_map, List.map_map]
  induction Text.lines text.toList with
  | nil => rfl
  | cons line rest ih =>
    rw [List.map_cons, List.filterMap_cons, List.filter_cons, row?_trim, ih]
    unfold row?
    cases hempty : (Text.trim line).isEmpty <;>
      by_cases hcomment : (Text.trim line).head? = some '#' <;> simp [hempty, hcomment]

/-! ### Reports -/

/-- The number of warnings among events. -/
def warnings (events : List Event) : Nat :=
  events.countP fun event => event.level = .warn

/-- The warnings among events, each with what it says and the value that it comes with first. -/
def complaints (events : List Event) : List (String × Option (String × FieldValue)) :=
  (events.filter fun event => event.level = .warn).map fun event =>
    (event.message, event.fields.head?)

/-- The complaints among events in sequence come in sequence. -/
@[simp] theorem complaints_append (first second : List Event) :
    complaints (first ++ second) = complaints first ++ complaints second := by
  rw [complaints, List.filter_append, List.map_append]
  rfl

/-- There is one warning for each complaint. -/
theorem warnings_eq_length (events : List Event) :
    warnings events = (complaints events).length := by
  rw [warnings, complaints, List.length_map, List.countP_eq_length_filter]

/-- A warning about the profile at a path. -/
def about (path message : String) : String × Option (String × FieldValue) :=
  (message, some ("profile", .text path))

/-- The lines stand between two cursors. -/
def Cursor.Passes (before : Cursor) (lines : List TextLine) (after : Cursor) : Prop :=
  before.rest = lines ++ after.rest ∧
    after.last = lines.foldl (fun _ line => line.number) before.last

namespace Cursor

variable {before after : Cursor}

/-- Passing no lines is staying in place. -/
theorem passes_nil_iff : before.Passes [] after ↔ after = before := by
  obtain ⟨rest, last⟩ := before
  obtain ⟨rest', last'⟩ := after
  simp only [Passes, List.nil_append, List.foldl_nil, mk.injEq]
  exact and_congr_left' eq_comm

/-- Passing lines in sequence is passing the first ones and then the others. -/
theorem passes_append_iff {first second : List TextLine} :
    before.Passes (first ++ second) after ↔
      ∃ between, before.Passes first between ∧ between.Passes second after := by
  constructor
  · rintro ⟨hrest, hlast⟩
    refine ⟨⟨second ++ after.rest, first.foldl (fun _ line => line.number) before.last⟩,
      ⟨?_, rfl⟩, rfl, ?_⟩
    · rw [hrest, List.append_assoc]
    · rw [hlast, List.foldl_append]
  · rintro ⟨between, ⟨hrest, hlast⟩, hrest', hlast'⟩
    refine ⟨?_, ?_⟩
    · rw [hrest, hrest', List.append_assoc]
    · rw [hlast', hlast, List.foldl_append]

/-- Passing lines is passing the first of them and then the rest. -/
theorem passes_cons_iff {line : TextLine} {lines : List TextLine} :
    before.Passes (line :: lines) after ↔
      ∃ between, before.Passes [line] between ∧ between.Passes lines after :=
  @passes_append_iff before after [line] lines

end Cursor

/-- Lines that write a sheet down are cut where each step of the reader stops. -/
theorem Sheet.isWrittenAs_iff_passes {sheet : Sheet} {before after : Cursor} :
    (∃ lines, before.Passes lines after ∧ sheet.IsWrittenAs (lines.map TextLine.words)) ↔
      ∃ nameLine afterName sizeLine afterSize aliasCountLine afterAliasCount aliasLines afterAliases
          rangeCountLine afterRangeCount rangeLines,
        (before.Passes [nameLine] afterName ∧
          nameLine.words.head? = some sheet.collective.name) ∧
        (afterName.Passes [sizeLine] afterSize ∧
          IsNumberRow 32 sizeLine.words sheet.groupSize ∧ 0 < sheet.groupSize) ∧
        (afterSize.Passes [aliasCountLine] afterAliasCount ∧
          IsNumberRow 64 aliasCountLine.words sheet.aliases.length) ∧
        (afterAliasCount.Passes aliasLines afterAliases ∧
          List.Forall₂ IsAliasRow (aliasLines.map TextLine.words) sheet.aliases) ∧
        (afterAliases.Passes [rangeCountLine] afterRangeCount ∧
          IsNumberRow 64 rangeCountLine.words sheet.ranges.length ∧ 0 < sheet.ranges.length) ∧
        afterRangeCount.Passes rangeLines after ∧
          List.Forall₂ IsRangeRow (rangeLines.map TextLine.words) sheet.ranges := by
  constructor
  · rintro ⟨lines, hpasses, _, _, _, _, _, _, hlines, hname, hsize, haliasCount, haliases,
      hrangeCount, hranges⟩
    obtain ⟨nameLine, _, rfl, rfl, hfromSize⟩ := List.map_eq_cons_iff.mp hlines
    obtain ⟨sizeLine, _, rfl, rfl, hfromAliasCount⟩ := List.map_eq_cons_iff.mp hfromSize
    obtain ⟨aliasCountLine, _, rfl, rfl, hfromAliases⟩ := List.map_eq_cons_iff.mp hfromAliasCount
    obtain ⟨aliasLines, _, rfl, rfl, hfromRangeCount⟩ := List.map_eq_append_iff.mp hfromAliases
    obtain ⟨rangeCountLine, rangeLines, rfl, rfl, rfl⟩ := List.map_eq_cons_iff.mp hfromRangeCount
    obtain ⟨afterName, hnameLine, hpasses⟩ := Cursor.passes_cons_iff.mp hpasses
    obtain ⟨afterSize, hsizeLine, hpasses⟩ := Cursor.passes_cons_iff.mp hpasses
    obtain ⟨afterAliasCount, haliasCountLine, hpasses⟩ := Cursor.passes_cons_iff.mp hpasses
    obtain ⟨afterAliases, haliasLines, hpasses⟩ := Cursor.passes_append_iff.mp hpasses
    obtain ⟨afterRangeCount, hrangeCountLine, hrangeLines⟩ := Cursor.passes_cons_iff.mp hpasses
    exact ⟨nameLine, afterName, sizeLine, afterSize, aliasCountLine, afterAliasCount, aliasLines,
      afterAliases, rangeCountLine, afterRangeCount, rangeLines, ⟨hnameLine, hname⟩,
      ⟨hsizeLine, hsize⟩, ⟨haliasCountLine, haliasCount⟩, ⟨haliasLines, haliases⟩,
      ⟨hrangeCountLine, hrangeCount⟩, hrangeLines, hranges⟩
  · rintro ⟨nameLine, afterName, sizeLine, afterSize, aliasCountLine, afterAliasCount, aliasLines,
      afterAliases, rangeCountLine, afterRangeCount, rangeLines, ⟨hnameLine, hname⟩,
      ⟨hsizeLine, hsize⟩, ⟨haliasCountLine, haliasCount⟩, ⟨haliasLines, haliases⟩,
      ⟨hrangeCountLine, hrangeCount⟩, hrangeLines, hranges⟩
    have hfromRangeCount := Cursor.passes_cons_iff.mpr ⟨_, hrangeCountLine, hrangeLines⟩
    have hfromAliases := Cursor.passes_append_iff.mpr ⟨_, haliasLines, hfromRangeCount⟩
    have hfromAliasCount := Cursor.passes_cons_iff.mpr ⟨_, haliasCountLine, hfromAliases⟩
    have hfromSize := Cursor.passes_cons_iff.mpr ⟨_, hsizeLine, hfromAliasCount⟩
    refine ⟨_, Cursor.passes_cons_iff.mpr ⟨_, hnameLine, hfromSize⟩, _, _, _, _, _, _, ?_, hname,
      hsize, haliasCount, haliases, hrangeCount, hranges⟩
    simp only [List.map_cons, List.map_append]

namespace Reader

variable {α β : Type} {before after : Cursor}
  {warned : List (String × Option (String × FieldValue))}

/-- The reader gets from `before` to `after` without a fault and yields the value. On the way
it reports the warnings `warned`. -/
def Gives (reader : Reader α) (before : Cursor) (value : α) (after : Cursor)
    (warned : List (String × Option (String × FieldValue))) : Prop :=
  (reader.run before).run.value = .ok (value, after) ∧
    complaints (reader.run before).run.events = warned

/-! ### Rules for composition -/

/-- A reader that just gives a value gives that, in place and without a warning. -/
theorem gives_pure_iff {value result : α} :
    Gives (pure result) before value after warned ↔
      value = result ∧ after = before ∧ warned = [] := by
  constructor
  · rintro ⟨hvalue, hwarned⟩
    obtain ⟨rfl, rfl⟩ := Prod.mk.inj (Except.ok.inj hvalue)
    exact ⟨rfl, rfl, hwarned.symm⟩
  · rintro ⟨rfl, rfl, rfl⟩
    exact ⟨rfl, rfl⟩

/-- Two readers in sequence give what the second one gives after the first. -/
theorem gives_bind_iff {reader : Reader α} {next : α → Reader β} {value : β} :
    Gives (reader >>= next) before value after warned ↔
      ∃ first between warned₁ warned₂, Gives reader before first between warned₁ ∧
        Gives (next first) between value after warned₂ ∧ warned = warned₁ ++ warned₂ := by
  constructor
  · rintro ⟨hvalue, hwarned⟩
    cases hfirst : (reader.run before).run.value with
    | error fault => simp [StateT.run_bind, ExceptT.run_bind, hfirst] at hvalue
    | ok result =>
      obtain ⟨first, between⟩ := result
      simp only [StateT.run_bind, ExceptT.run_bind, Logged.value_bind, Logged.events_bind, hfirst,
        complaints_append] at hvalue hwarned
      exact ⟨first, between, _, _, ⟨hfirst, rfl⟩, ⟨hvalue, rfl⟩, hwarned.symm⟩
  · rintro ⟨first, between, warned₁, warned₂, ⟨hfirst, rfl⟩, ⟨hvalue, rfl⟩, rfl⟩
    constructor
    · simpa only [StateT.run_bind, ExceptT.run_bind, Logged.value_bind, hfirst] using hvalue
    · simp only [StateT.run_bind, ExceptT.run_bind, Logged.events_bind, hfirst, complaints_append]

/-- A fault gives nothing. -/
theorem not_gives_failAt {line : Nat} {cause : FaultCause} {value : α} :
    ¬ Gives (failAt line cause) before value after warned := by
  rintro ⟨hvalue, -⟩
  cases hvalue

/-- Nothing is given after a fault. -/
theorem not_gives_failAt_bind {line : Nat} {cause : FaultCause} {next : β → Reader α} {value : α} :
    ¬ Gives (failAt line cause >>= next) before value after warned := by
  rw [gives_bind_iff]
  rintro ⟨_, _, _, _, hgives, -⟩
  exact not_gives_failAt hgives

/-- Looking at the place gives nothing when nothing is given from any place. -/
theorem not_gives_get_bind {next : Cursor → Reader α} {value : α}
    (hnext : ∀ cursor {before warned}, ¬ Gives (next cursor) before value after warned) :
    ¬ Gives (get >>= next) before value after warned := by
  rw [gives_bind_iff]
  rintro ⟨_, _, _, _, -, hgives, -⟩
  exact hnext _ hgives

/-- A branch that can only fail is not taken. -/
theorem gives_ite_iff {condition : Prop} [Decidable condition] {refused next : Reader α}
    {value : α} (hrefused : ¬ Gives refused before value after warned) :
    Gives (if condition then refused else next) before value after warned ↔
      ¬ condition ∧ Gives next before value after warned := by
  by_cases hcondition : condition
  · rw [if_pos hcondition]
    constructor
    · intro hgives
      exact absurd hgives hrefused
    · rintro ⟨hnot, -⟩
      exact absurd hcondition hnot
  · rw [if_neg hcondition, and_iff_right hcondition]

/-! ### Rules for the steps -/

/-- The next line is given by passing it. -/
theorem gives_nextLine_iff {expected : Item} {line : TextLine} :
    Gives (nextLine expected) before line after warned ↔
      before.Passes [line] after ∧ warned = [] := by
  obtain ⟨rest, last⟩ := before
  cases rest with
  | nil =>
    constructor
    · rintro ⟨hvalue, -⟩
      cases hvalue
    · rintro ⟨⟨hrest, -⟩, -⟩
      cases hrest
  | cons head rest =>
    constructor
    · rintro ⟨hvalue, hwarned⟩
      obtain ⟨rfl, rfl⟩ := Prod.mk.inj (Except.ok.inj hvalue)
      exact ⟨⟨rfl, rfl⟩, hwarned.symm⟩
    · rintro ⟨⟨hrest, hlast⟩, rfl⟩
      obtain ⟨rest', last'⟩ := after
      obtain ⟨rfl, rfl⟩ := List.cons.inj hrest
      obtain rfl : last' = head.number := hlast
      exact ⟨rfl, rfl⟩

/-- A number is given by a word that is one. -/
theorem gives_number_iff {bits line : Nat} {word : Option String} {expected : Item}
    {value : Nat} :
    Gives (number bits line word expected) before value after warned ↔
      (∃ found, word = some found ∧ Text.unsigned? bits found.toList = some value) ∧
        after = before ∧ warned = [] := by
  unfold number
  rw [← Option.bind_eq_some_iff]
  cases hvalue : word.bind fun word => Text.unsigned? bits word.toList with
  | none =>
    constructor
    · intro hgives
      exact absurd hgives not_gives_failAt
    · rintro ⟨hsome, -⟩
      cases hsome
  | some found =>
    rw [gives_pure_iff, Option.some_inj, eq_comm]

/-- The next number is given by passing a line that holds it. -/
theorem gives_nextNumber_iff {bits : Nat} {expected : Item} {value : Nat} :
    Gives (nextNumber bits expected) before value after warned ↔
      ∃ line, before.Passes [line] after ∧ IsNumberRow bits line.words value ∧ warned = [] := by
  unfold nextNumber
  simp only [gives_bind_iff, gives_nextLine_iff, gives_number_iff]
  constructor
  · rintro ⟨line, _, _, _, ⟨hpasses, rfl⟩, ⟨hnumber, rfl, rfl⟩, rfl⟩
    exact ⟨line, hpasses, hnumber, rfl⟩
  · rintro ⟨line, hpasses, hnumber, rfl⟩
    exact ⟨line, after, [], [], ⟨hpasses, rfl⟩, ⟨hnumber, rfl, rfl⟩, rfl⟩

/-- A warning about a line is the only thing that it leaves behind. -/
theorem gives_warnAt_iff {path message : String} {line : Nat} {reported : Unit} :
    Gives (warnAt path line message) before reported after warned ↔
      after = before ∧ warned = [about path message] := by
  constructor
  · rintro ⟨hvalue, hwarned⟩
    exact ⟨(Prod.mk.inj (Except.ok.inj hvalue)).2.symm, hwarned.symm⟩
  · rintro ⟨rfl, rfl⟩
    exact ⟨rfl, rfl⟩

/-! ### Rules for the lines of the tables -/

/-- A dropped line gives nothing but its warning. -/
theorem gives_drop_iff {path message : String} {line : Nat} {value : Option α} :
    Gives (do warnAt path line message; pure none) before value after warned ↔
      value = none ∧ after = before ∧ warned = [about path message] := by
  simp only [gives_bind_iff, gives_warnAt_iff, gives_pure_iff]
  constructor
  · rintro ⟨_, _, _, _, ⟨rfl, rfl⟩, ⟨rfl, rfl, rfl⟩, rfl⟩
    exact ⟨rfl, rfl, rfl⟩
  · rintro ⟨rfl, rfl, rfl⟩
    exact ⟨(), after, _, [], ⟨rfl, rfl⟩, ⟨rfl, rfl, rfl⟩, rfl⟩

/-- An alias line that names an unknown algorithm is dropped with a warning. -/
theorem gives_aliasLine_iff {path : String} {choices : List Choice}
    {value : Option (String × AlgorithmId)} :
    Gives (aliasLine path choices) before value after warned ↔
      ∃ line entry, before.Passes [line] after ∧ IsAliasRow line.words entry ∧
        value = (Choice.idOf choices entry.2).toOption.map (entry.1, ·) ∧
        warned = (Sheet.aliasComplaints choices entry).map (about path) := by
  unfold aliasLine Sheet.aliasComplaints
  simp only [gives_bind_iff, gives_nextLine_iff]
  constructor
  · rintro ⟨line, between, _, warned, ⟨hpasses, rfl⟩, hgives, rfl⟩
    split at hgives
    · next name algorithm rest hwords =>
      refine ⟨line, (name, algorithm), ?_⟩
      cases hid : Choice.idOf choices algorithm with
      | ok id =>
        rw [hid] at hgives
        obtain ⟨hvalue, rfl, hwarned⟩ := gives_pure_iff.mp hgives
        exact ⟨hpasses, ⟨rest, hwords⟩, hvalue, hwarned⟩
      | error error =>
        rw [hid] at hgives
        obtain rfl := Choice.eq_of_idOf_eq_error hid
        obtain ⟨hvalue, rfl, hwarned⟩ := gives_drop_iff.mp hgives
        exact ⟨hpasses, ⟨rest, hwords⟩, hvalue, hwarned⟩
    · exact absurd hgives not_gives_failAt
  · rintro ⟨line, ⟨name, algorithm⟩, hpasses, ⟨rest, hwords⟩, hvalue, hwarned⟩
    refine ⟨line, after, [], warned, ⟨hpasses, rfl⟩, ?_, rfl⟩
    rw [hwords]
    dsimp only at hvalue hwarned ⊢
    cases hid : Choice.idOf choices algorithm with
    | ok id =>
      rw [hid] at hvalue hwarned
      exact gives_pure_iff.mpr ⟨hvalue, rfl, hwarned⟩
    | error error =>
      rw [hid] at hvalue hwarned
      obtain rfl := Choice.eq_of_idOf_eq_error hid
      exact gives_drop_iff.mpr ⟨hvalue, rfl, hwarned⟩

/-- A range line whose alias stands for nothing is dropped with a warning. -/
theorem gives_rangeLine_iff {path : String} {aliases : List (String × AlgorithmId)}
    {value : Option SizeRange} :
    Gives (rangeLine path aliases) before value after warned ↔
      ∃ line range, before.Passes [line] after ∧ IsRangeRow line.words range ∧
        value = (resolveAlias aliases range.aliasName).map
          (fun algorithm => ⟨range.start, range.stop, algorithm⟩) ∧
        warned = (Sheet.rangeComplaints (resolveAlias aliases range.aliasName) range).map
          (about path) := by
  unfold rangeLine
  rw [gives_bind_iff]
  simp only [gives_nextLine_iff]
  constructor
  · rintro ⟨line, between, _, warned, ⟨hpasses, rfl⟩, hgives, rfl⟩
    split at hgives
    · next startWord stopWord name rest hwords =>
      simp only [gives_bind_iff, gives_number_iff, gives_ite_iff not_gives_failAt_bind] at hgives
      obtain ⟨start, _, _, _, ⟨⟨_, ⟨⟩, hstart⟩, rfl, rfl⟩, ⟨stop, _, _, kept,
        ⟨⟨_, ⟨⟩, hstop⟩, rfl, rfl⟩, ⟨hle, hgives⟩, rfl⟩, rfl⟩ := hgives
      have hrow : IsRangeRow line.words ⟨start, stop, name⟩ :=
        ⟨startWord, stopWord, rest, hwords, hstart, hstop, Nat.le_of_not_lt hle⟩
      refine ⟨line, ⟨start, stop, name⟩, ?_⟩
      cases hresolved : resolveAlias aliases name with
      | some algorithm =>
        rw [hresolved] at hgives
        obtain ⟨hvalue, rfl, hwarned⟩ := gives_pure_iff.mp hgives
        exact ⟨hpasses, hrow, hvalue, hwarned⟩
      | none =>
        rw [hresolved] at hgives
        obtain ⟨hvalue, rfl, hwarned⟩ := gives_drop_iff.mp hgives
        exact ⟨hpasses, hrow, hvalue, hwarned⟩
    · exact absurd hgives not_gives_failAt
  · rintro ⟨line, ⟨start, stop, name⟩, hpasses, ⟨startWord, stopWord, rest, hwords, hstart, hstop,
      hle⟩, hvalue, hwarned⟩
    refine ⟨line, after, [], warned, ⟨hpasses, rfl⟩, ?_, rfl⟩
    rw [hwords]
    simp only [gives_bind_iff, gives_number_iff, gives_ite_iff not_gives_failAt_bind]
    refine ⟨start, after, [], warned, ⟨⟨_, rfl, hstart⟩, rfl, rfl⟩, ⟨stop, after, [], warned,
      ⟨⟨_, rfl, hstop⟩, rfl, rfl⟩, ⟨Nat.not_lt_of_le hle, ?_⟩, rfl⟩, rfl⟩
    dsimp only at hvalue hwarned
    cases hresolved : resolveAlias aliases name with
    | some algorithm =>
      rw [hresolved] at hvalue hwarned
      exact gives_pure_iff.mpr ⟨hvalue, rfl, hwarned⟩
    | none =>
      rw [hresolved] at hvalue hwarned
      exact gives_drop_iff.mpr ⟨hvalue, rfl, hwarned⟩

/-- Lines are read one after another. What is kept of them is what is kept of each one. -/
theorem gives_repeated_iff {γ : Type} {item : Reader (Option α)} {IsRow : List String → γ → Prop}
    {keep : γ → Option α} {complain : γ → List (String × Option (String × FieldValue))}
    {count : Nat} {values : List α}
    (hitem : ∀ {before value after warned}, Gives item before value after warned ↔
      ∃ line entry, before.Passes [line] after ∧ IsRow line.words entry ∧ value = keep entry ∧
        warned = complain entry) :
    Gives (repeated item count) before values after warned ↔
      ∃ lines entries, before.Passes lines after ∧ entries.length = count ∧
        List.Forall₂ IsRow (lines.map TextLine.words) entries ∧
        values = entries.filterMap keep ∧ warned = entries.flatMap complain := by
  -- Each step of the induction takes one line and one entry from the front.
  induction count generalizing before after values warned with
  | zero =>
    rw [repeated, gives_pure_iff]
    constructor
    · rintro ⟨rfl, hafter, rfl⟩
      exact ⟨[], [], Cursor.passes_nil_iff.mpr hafter, rfl, .nil, rfl, rfl⟩
    · rintro ⟨lines, entries, hpasses, hlength, hrows, rfl, rfl⟩
      obtain rfl := List.length_eq_zero_iff.mp hlength
      obtain rfl := List.map_eq_nil_iff.mp (List.forall₂_nil_right_iff.mp hrows)
      exact ⟨rfl, Cursor.passes_nil_iff.mp hpasses, rfl⟩
  | succ count ih =>
    simp only [repeated, gives_bind_iff, gives_pure_iff, hitem, ih]
    constructor
    · rintro ⟨_, between, _, _, ⟨line, entry, hline, hrow, rfl, rfl⟩, ⟨_, _, _, _,
        ⟨lines, entries, hlines, rfl, hrows, rfl, rfl⟩, ⟨rfl, rfl, rfl⟩, rfl⟩, rfl⟩
      refine ⟨line :: lines, entry :: entries, Cursor.passes_cons_iff.mpr ⟨between, hline, hlines⟩,
        rfl, .cons hrow hrows, ?_, ?_⟩
      · rw [List.filterMap_cons]
        cases keep entry <;> rfl
      · rw [List.append_nil, List.flatMap_cons]
    · rintro ⟨lines, entries, hpasses, hlength, hrows, rfl, rfl⟩
      obtain ⟨entry, entries, rfl⟩ := List.exists_cons_of_length_eq_add_one hlength
      obtain ⟨row, rows, hrow, hrows, hwords⟩ := List.forall₂_cons_right_iff.mp hrows
      obtain ⟨line, lines, rfl, rfl, rfl⟩ := List.map_eq_cons_iff.mp hwords
      obtain ⟨between, hline, hlines⟩ := Cursor.passes_cons_iff.mp hpasses
      refine ⟨keep entry, between, _, _, ⟨line, entry, hline, hrow, rfl, rfl⟩, ⟨_, after, _, [],
        ⟨lines, entries, hlines, Nat.succ.inj hlength, hrows, rfl, rfl⟩, ⟨?_, rfl, rfl⟩, rfl⟩, ?_⟩
      · rw [List.filterMap_cons]
        cases keep entry <;> rfl
      · rw [List.append_nil, List.flatMap_cons]

/-- The alias table is given by passing its lines, without the aliases for unknown names, each of
which is warned about. -/
theorem gives_aliasTable_iff {path : String} {choices : List Choice} {count : Nat}
    {values : List (String × AlgorithmId)} :
    Gives (repeated (aliasLine path choices) count) before values after warned ↔
      ∃ lines entries, before.Passes lines after ∧ entries.length = count ∧
        List.Forall₂ IsAliasRow (lines.map TextLine.words) entries ∧
        values = (entries.filterMap fun entry =>
          (Choice.idOf choices entry.2).toOption.map (entry.1, ·)) ∧
        warned = entries.flatMap fun entry =>
          (Sheet.aliasComplaints choices entry).map (about path) :=
  gives_repeated_iff gives_aliasLine_iff

/-- The range table is given by passing its lines, without the ranges with unknown aliases, each of
which is warned about. -/
theorem gives_rangeTable_iff {path : String} {aliases : List (String × AlgorithmId)} {count : Nat}
    {values : List SizeRange} :
    Gives (repeated (rangeLine path aliases) count) before values after warned ↔
      ∃ lines ranges, before.Passes lines after ∧ ranges.length = count ∧
        List.Forall₂ IsRangeRow (lines.map TextLine.words) ranges ∧
        values = (ranges.filterMap fun range =>
          (resolveAlias aliases range.aliasName).map fun algorithm =>
            ⟨range.start, range.stop, algorithm⟩) ∧
        warned = ranges.flatMap fun range =>
          (Sheet.rangeComplaints (resolveAlias aliases range.aliasName) range).map (about path) :=
  gives_repeated_iff gives_rangeLine_iff

/-- The first word of a row is the name of an operation just when the row starts with that name. -/
theorem head?_eq_name_iff {row : List String} {op : Collective} :
    op.name = row.head?.getD "" ↔ row.head? = some op.name := by
  cases row with
  | nil => cases op <;> decide
  | cons word rest => exact eq_comm.trans Option.some_inj.symm

/-! ### Rules for the lines above the tables -/

/-- The operation is given by passing a line that starts with its name. -/
theorem gives_operation_iff {op : Collective} :
    Gives operation before op after warned ↔
      ∃ line, before.Passes [line] after ∧ line.words.head? = some op.name ∧ warned = [] := by
  have hname (line : TextLine) : Collective.ofName? (line.words.head?.getD "") = some op ↔
      line.words.head? = some op.name := Collective.ofName?_eq_some_iff.trans head?_eq_name_iff
  unfold operation
  simp only [gives_bind_iff, gives_nextLine_iff, ← hname]
  constructor
  · rintro ⟨line, between, _, warned, ⟨hpasses, rfl⟩, hgives, rfl⟩
    split at hgives
    · next found hfound =>
      obtain ⟨rfl, rfl, rfl⟩ := gives_pure_iff.mp hgives
      exact ⟨line, hpasses, hfound, rfl⟩
    · exact absurd hgives not_gives_failAt
  · rintro ⟨line, hpasses, hfound, rfl⟩
    refine ⟨line, after, [], [], ⟨hpasses, rfl⟩, ?_, rfl⟩
    rw [hfound]
    exact gives_pure_iff.mpr ⟨rfl, rfl, rfl⟩

/-- The next positive number is given by passing a line that holds it. -/
theorem gives_nextPositive_iff {bits : Nat} {expected : Item} {zero : FaultCause} {value : Nat} :
    Gives (nextPositive bits expected zero) before value after warned ↔
      ∃ line, before.Passes [line] after ∧ (IsNumberRow bits line.words value ∧ 0 < value) ∧
        warned = [] := by
  unfold nextPositive
  simp only [gives_bind_iff, gives_nextNumber_iff, gives_pure_iff,
    gives_ite_iff (not_gives_get_bind fun _ => not_gives_failAt_bind)]
  constructor
  · rintro ⟨value, _, _, _, ⟨line, hpasses, hnumber, rfl⟩, ⟨hpositive, rfl, rfl, rfl⟩, rfl⟩
    exact ⟨line, hpasses, ⟨hnumber, Nat.pos_of_ne_zero hpositive⟩, rfl⟩
  · rintro ⟨line, hpasses, ⟨hnumber, hpositive⟩, rfl⟩
    exact ⟨value, after, [], [], ⟨line, hpasses, hnumber, rfl⟩,
      ⟨Nat.ne_of_gt hpositive, rfl, rfl, rfl⟩, rfl⟩

/-! ### The rule for a profile -/

/-- Where memory is always had, taking it is no step of the reader. -/
theorem profile_eq (path : String) : profile path = (do
    let collective ← operation
    let groupSize ← nextPositive 32 .groupSize .zeroGroupSize
    let aliasCount ← nextNumber 64 .aliasCount
    let aliases ← repeated (aliasLine path collective.choices) aliasCount
    let rangeCount ← nextPositive 64 .rangeCount .zeroRangeCount
    let ranges ← repeated (rangeLine path aliases) rangeCount
    pure { collective, groupSize, ranges }) := rfl

/-- **A profile is read exactly where a sheet is written down, and it is the profile that the
sheet stands for. Every dropped line is reported.** -/
theorem gives_profile_iff {path : String} {value : Profile} :
    Gives (profile path) before value after warned ↔
      ∃ sheet : Sheet,
        (∃ lines, before.Passes lines after ∧ sheet.IsWrittenAs (lines.map TextLine.words)) ∧
        value = sheet.profile ∧ warned = sheet.lineComplaints.map (about path) := by
  simp only [Sheet.isWrittenAs_iff_passes]
  rw [profile_eq]
  -- Each step of the reader stands for one condition on the rows of a sheet.
  simp only [gives_bind_iff, gives_operation_iff, gives_nextPositive_iff, gives_nextNumber_iff,
    gives_aliasTable_iff, gives_rangeTable_iff, gives_pure_iff]
  constructor
  · rintro ⟨op, afterName, _, _, ⟨nameLine, hnameLine, hname, rfl⟩, ⟨groupSize, afterSize, _, _,
      ⟨sizeLine, hsizeLine, hsize, rfl⟩, ⟨_, afterAliasCount, _, _,
      ⟨aliasCountLine, haliasCountLine, haliasCount, rfl⟩, ⟨_, afterAliases, _, _,
      ⟨aliasLines, aliases, haliasLines, rfl, haliases, rfl, rfl⟩, ⟨_, afterRangeCount, _, _,
      ⟨rangeCountLine, hrangeCountLine, hrangeCount, rfl⟩, ⟨_, _, _, _,
      ⟨rangeLines, ranges, hrangeLines, rfl, hranges, rfl, rfl⟩, ⟨rfl, rfl, rfl⟩, rfl⟩, rfl⟩, rfl⟩,
      rfl⟩, rfl⟩, rfl⟩
    refine ⟨⟨op, groupSize, aliases, ranges⟩, ⟨nameLine, afterName, sizeLine, afterSize,
      aliasCountLine, afterAliasCount, aliasLines, afterAliases, rangeCountLine, afterRangeCount,
      rangeLines, ⟨hnameLine, hname⟩, ⟨hsizeLine, hsize⟩, ⟨haliasCountLine, haliasCount⟩,
      ⟨haliasLines, haliases⟩, ⟨hrangeCountLine, hrangeCount⟩, hrangeLines, hranges⟩, ?_, ?_⟩
    · simp only [Sheet.profile, Sheet.algorithmOf?, ← Sheet.resolveAlias_eq]
    · simp only [Sheet.lineComplaints, Sheet.algorithmOf?, ← Sheet.resolveAlias_eq,
        List.map_append, List.map_flatMap, List.nil_append, List.append_nil]
  · rintro ⟨sheet, ⟨nameLine, afterName, sizeLine, afterSize, aliasCountLine, afterAliasCount,
      aliasLines, afterAliases, rangeCountLine, afterRangeCount, rangeLines, ⟨hnameLine, hname⟩,
      ⟨hsizeLine, hsize⟩, ⟨haliasCountLine, haliasCount⟩, ⟨haliasLines, haliases⟩,
      ⟨hrangeCountLine, hrangeCount⟩, hrangeLines, hranges⟩, rfl, rfl⟩
    refine ⟨_, _, _, _, ⟨nameLine, hnameLine, hname, rfl⟩, ⟨_, _, _, _,
      ⟨sizeLine, hsizeLine, hsize, rfl⟩, ⟨_, _, _, _,
      ⟨aliasCountLine, haliasCountLine, haliasCount, rfl⟩, ⟨_, _, _, _,
      ⟨aliasLines, sheet.aliases, haliasLines, rfl, haliases, rfl, rfl⟩, ⟨_, _, _, _,
      ⟨rangeCountLine, hrangeCountLine, hrangeCount, rfl⟩, ⟨_, _, _, _,
      ⟨rangeLines, sheet.ranges, hrangeLines, rfl, hranges, rfl, rfl⟩, ⟨?_, rfl, rfl⟩, rfl⟩, rfl⟩,
      rfl⟩, rfl⟩, rfl⟩, ?_⟩
    · simp only [Sheet.profile, Sheet.algorithmOf?, ← Sheet.resolveAlias_eq]
    · simp only [Sheet.lineComplaints, Sheet.algorithmOf?, ← Sheet.resolveAlias_eq,
        List.map_append, List.map_flatMap, List.nil_append, List.append_nil]

end Reader

end CollectiveTuner.Profile
