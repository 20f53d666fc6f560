import CollectiveTuner.Proofs.Profile.Reading

/-!
# Verdicts on rows

A reader goes through the rows of a text one after another. It accepts some of them, or it rejects
a row, or it runs out of rows. `Verdict` says which, and that whatever was read before the end
could have been completed. The verdict depends on the words of the rows only, so that a fault is
always reported at the row that is rejected or behind the last one.
-/

namespace CollectiveTuner.Profile.Reader

variable {α β : Type}

/-! ### Values of readers -/

/-- The value of a reader where these lines are left. -/
def valueAt (reader : Reader α) (lines : List TextLine) (last : Nat) :
    Except Fault (α × Cursor) :=
  (reader.run ⟨lines, last⟩).run.value

/-- The number of the line read last once these lines are read. -/
def lastNumber (last : Nat) (lines : List TextLine) : Nat :=
  lines.foldl (fun _ line => line.number) last

/-- The last number of lines in sequence is that of the later lines, if there are any. -/
theorem lastNumber_append (last : Nat) (lines more : List TextLine) :
    lastNumber last (lines ++ more) = lastNumber (lastNumber last lines) more :=
  List.foldl_append

/-- The value of two readers in sequence is that of the second one on what the first one leaves. -/
theorem valueAt_bind (reader : Reader α) (next : α → Reader β) (lines : List TextLine)
    (last : Nat) : (reader >>= next).valueAt lines last =
      match reader.valueAt lines last with
      | .ok (value, after) => (next value).valueAt after.rest after.last
      | .error fault => .error fault := by
  unfold valueAt
  rw [StateT.run_bind, ExceptT.run_bind, Logged.value_bind]
  cases (reader.run ⟨lines, last⟩).run.value <;> rfl

/-- Readers of the same values in sequence have the same value. -/
theorem valueAt_bind_congr {reader other : Reader α} {next next' : α → Reader β}
    (hreader : ∀ lines last, reader.valueAt lines last = other.valueAt lines last)
    (hnext : ∀ value lines last, (next value).valueAt lines last = (next' value).valueAt lines last)
    (lines : List TextLine) (last : Nat) :
    (reader >>= next).valueAt lines last = (other >>= next').valueAt lines last := by
  rw [valueAt_bind, valueAt_bind, hreader]
  cases other.valueAt lines last with
  | error fault => rfl
  | ok result => exact hnext _ _ _

/-- The next line is taken off the lines that are left. -/
theorem valueAt_nextLine_bind (expected : Item) (next : TextLine → Reader β)
    (line : TextLine) (rest : List TextLine) (last : Nat) :
    (nextLine expected >>= next).valueAt (line :: rest) last =
      (next line).valueAt rest line.number := by
  rw [valueAt_bind]
  rfl

/-! ### Verdicts -/

/-- The reader takes lines with these words and yields the value, whatever comes after them. -/
def Accepts (reader : Reader α) (rows : List (List String)) (value : α) : Prop :=
  ∀ (lines rest : List TextLine) (last : Nat), lines.map TextLine.words = rows →
    reader.valueAt (lines ++ rest) last = .ok (value, ⟨rest, lastNumber last lines⟩)

/-- After lines with these words the reader fails at a line with those of `row`, whatever comes
after it. -/
def Rejects (reader : Reader α) (rows : List (List String)) (row : List String)
    (cause : FaultCause) : Prop :=
  ∀ (lines : List TextLine) (line : TextLine) (rest : List TextLine) (last : Nat),
    lines.map TextLine.words = rows → line.words = row →
      reader.valueAt (lines ++ line :: rest) last = .error ⟨line.number, cause⟩

/-- The reader needs more than lines with these words. -/
def Exhausts (reader : Reader α) (rows : List (List String)) (cause : FaultCause) : Prop :=
  ∀ (lines : List TextLine) (last : Nat), lines.map TextLine.words = rows →
    reader.valueAt lines last = .error ⟨lastNumber last lines + 1, cause⟩

/-- The reader takes the rows when certain lines follow. -/
def Completable (reader : Reader α) (rows : List (List String)) : Prop :=
  ∃ (following : List (List Char)) (value : α),
    reader.Accepts (rows ++ following.filterMap row?) value

/-- What a reader makes of rows. -/
inductive Verdict (reader : Reader α) : List (List String) → Prop
  | accepted {taken : List (List String)} (rest : List (List String)) {value : α}
      (haccepts : reader.Accepts taken value) : Verdict reader (taken ++ rest)
  | rejected {taken : List (List String)} {row : List String} (rest : List (List String))
      {cause : FaultCause} (hcompletable : reader.Completable taken)
      (hrejects : reader.Rejects taken row cause) : Verdict reader (taken ++ row :: rest)
  | exhausted {rows : List (List String)} {cause : FaultCause}
      (hcompletable : reader.Completable rows) (hexhausts : reader.Exhausts rows cause) :
      Verdict reader rows

/-- The reader has a verdict on all rows. -/
def Orderly (reader : Reader α) : Prop :=
  ∀ rows, Verdict reader rows

/-- A verdict is about the values of a reader only. -/
theorem Orderly.congr {reader other : Reader α} (horderly : other.Orderly)
    (heq : ∀ lines last, reader.valueAt lines last = other.valueAt lines last) :
    reader.Orderly := by
  have haccepts {rows : List (List String)} {value : α} (haccepts : other.Accepts rows value) :
      reader.Accepts rows value := by
    intro lines rest last hlines
    rw [heq]
    exact haccepts lines rest last hlines
  have hcompletable {rows : List (List String)} :
      other.Completable rows → reader.Completable rows := by
    rintro ⟨following, value, hfollowing⟩
    exact ⟨following, value, haccepts hfollowing⟩
  intro rows
  cases horderly rows with
  | accepted rest htaken => exact .accepted rest (haccepts htaken)
  | @rejected taken row rest cause hbefore hrejects =>
    have hrow : reader.Rejects taken row cause := by
      intro lines line after last hlines hline
      rw [heq]
      exact hrejects lines line after last hlines hline
    exact .rejected rest (hcompletable hbefore) hrow
  | @exhausted rows cause hbefore hexhausts =>
    have hrows : reader.Exhausts rows cause := by
      intro lines last hlines
      rw [heq]
      exact hexhausts lines last hlines
    exact .exhausted (hcompletable hbefore) hrows

/-! ### Composition -/

section

variable {reader : Reader α} {next : α → Reader β} {taken rows : List (List String)} {value : α}

/-- A reader that just gives a value accepts no rows. -/
theorem accepts_pure (value : α) : Accepts (pure value) [] value := by
  intro lines rest last hlines
  obtain rfl := List.map_eq_nil_iff.mp hlines
  rfl

/-- A reader that just gives a value is orderly. -/
theorem orderly_pure (value : α) : Orderly (pure value) :=
  fun rows => .accepted rows (accepts_pure value)

/-- Readers in sequence accept rows in sequence. -/
theorem Accepts.bind {result : β} (hfirst : reader.Accepts taken value)
    (hnext : (next value).Accepts rows result) :
    (reader >>= next).Accepts (taken ++ rows) result := by
  intro lines rest last hlines
  obtain ⟨early, late, rfl, hearly, hlate⟩ := List.map_eq_append_iff.mp hlines
  rw [List.append_assoc, valueAt_bind, hfirst early (late ++ rest) last hearly, lastNumber_append]
  exact hnext late rest _ hlate

/-- A row that the second reader rejects is rejected after the rows that the first one accepts. -/
theorem Accepts.bind_rejects {row : List String} {cause : FaultCause}
    (hfirst : reader.Accepts taken value) (hnext : (next value).Rejects rows row cause) :
    (reader >>= next).Rejects (taken ++ rows) row cause := by
  intro lines line rest last hlines hline
  obtain ⟨early, late, rfl, hearly, hlate⟩ := List.map_eq_append_iff.mp hlines
  rw [List.append_assoc, valueAt_bind, hfirst early (late ++ line :: rest) last hearly]
  exact hnext late line rest _ hlate hline

/-- Rows that are not enough for the second reader are not enough after those that the first one
accepts. -/
theorem Accepts.bind_exhausts {cause : FaultCause} (hfirst : reader.Accepts taken value)
    (hnext : (next value).Exhausts rows cause) :
    (reader >>= next).Exhausts (taken ++ rows) cause := by
  intro lines last hlines
  obtain ⟨early, late, rfl, hearly, hlate⟩ := List.map_eq_append_iff.mp hlines
  rw [valueAt_bind, hfirst early late last hearly, lastNumber_append]
  exact hnext late _ hlate

/-- A row that the first reader rejects is rejected. -/
theorem Rejects.bind {row : List String} {cause : FaultCause}
    (hfirst : reader.Rejects rows row cause) : (reader >>= next).Rejects rows row cause := by
  intro lines line rest last hlines hline
  rw [valueAt_bind, hfirst lines line rest last hlines hline]

/-- Rows that are not enough for the first reader are not enough. -/
theorem Exhausts.bind {cause : FaultCause} (hfirst : reader.Exhausts rows cause) :
    (reader >>= next).Exhausts rows cause := by
  intro lines last hlines
  rw [valueAt_bind, hfirst lines last hlines]

/-- Rows that the second reader can take can be taken after those that the first one accepts. -/
theorem Accepts.bind_completable (hfirst : reader.Accepts taken value)
    (hnext : (next value).Completable rows) : (reader >>= next).Completable (taken ++ rows) := by
  obtain ⟨following, result, hfollowing⟩ := hnext
  refine ⟨following, result, ?_⟩
  rw [List.append_assoc]
  exact hfirst.bind hfollowing

/-- A reader that has a verdict on no rows at all can be completed from there. -/
theorem Orderly.completable_nil (horderly : reader.Orderly) : reader.Completable [] := by
  generalize hrows : ([] : List (List String)) = rows
  cases horderly rows with
  | accepted rest haccepts =>
    obtain ⟨rfl, rfl⟩ := List.nil_eq_append_iff.mp hrows
    exact ⟨[], _, haccepts⟩
  | rejected rest =>
    simp at hrows
  | exhausted hcompletable => exact hcompletable

/-- Rows that the first reader can take can be taken when the second one is orderly. -/
theorem Completable.bind (hfirst : reader.Completable rows)
    (hnext : ∀ value, (next value).Orderly) : (reader >>= next).Completable rows := by
  obtain ⟨following, value, hfollowing⟩ := hfirst
  obtain ⟨more, result, hmore⟩ := (hnext value).completable_nil
  refine ⟨following ++ more, result, ?_⟩
  rw [List.filterMap_append, ← List.append_assoc]
  exact hfollowing.bind hmore

/-- One reader after another has a verdict: the first one's, or the second one's on what the first
one leaves. -/
theorem Orderly.bind (hfirst : reader.Orderly) (hnext : ∀ value, (next value).Orderly) :
    (reader >>= next).Orderly := by
  intro rows
  cases hfirst rows with
  | @accepted taken rest value haccepts =>
    cases hnext value rest with
    | accepted rest htaken =>
      rw [← List.append_assoc]
      exact .accepted rest (haccepts.bind htaken)
    | rejected rest hcompletable hrejects =>
      rw [← List.append_assoc]
      exact .rejected rest (haccepts.bind_completable hcompletable) (haccepts.bind_rejects hrejects)
    | exhausted hcompletable hexhausts =>
      exact .exhausted (haccepts.bind_completable hcompletable) (haccepts.bind_exhausts hexhausts)
  | rejected rest hcompletable hrejects =>
    exact .rejected rest (hcompletable.bind hnext) hrejects.bind
  | exhausted hcompletable hexhausts =>
    exact .exhausted (hcompletable.bind hnext) hexhausts.bind

/-- A repeated reader is orderly when the reader of one item is. -/
theorem orderly_repeated {item : Reader (Option α)} (hitem : item.Orderly) (count : Nat) :
    (repeated item count).Orderly := by
  induction count with
  | zero => exact orderly_pure []
  | succ count ih =>
    unfold repeated
    exact hitem.bind fun first => ih.bind fun rest => orderly_pure _

end

/-! ### Lines that are checked -/

/-- A reader of one line that is checked by its words. -/
def checkedLine (expected : Item) (check : List String → Except FaultCause α) : Reader α := do
  let line ← nextLine expected
  match check line.words with
  | .ok value => pure value
  | .error cause => failAt line.number cause

section

variable {expected : Item} {check : List String → Except FaultCause α} {words : List String}

/-- A checked line is taken off the lines that are left, and its check decides. -/
theorem valueAt_checkedLine (line : TextLine) (rest : List TextLine) (last : Nat) :
    (checkedLine expected check).valueAt (line :: rest) last =
      match check line.words with
      | .ok value => .ok (value, ⟨rest, line.number⟩)
      | .error cause => .error ⟨line.number, cause⟩ := by
  unfold checkedLine
  rw [valueAt_nextLine_bind]
  cases check line.words <;> rfl

/-- A row whose check passes is accepted. -/
theorem accepts_checkedLine {value : α} (hcheck : check words = .ok value) :
    (checkedLine expected check).Accepts [words] value := by
  intro lines rest last hlines
  obtain ⟨line, _, rfl, rfl, hnil⟩ := List.map_eq_cons_iff.mp hlines
  obtain rfl := List.map_eq_nil_iff.mp hnil
  rw [List.singleton_append, valueAt_checkedLine, hcheck]
  rfl

/-- A line that is checked has a verdict, provided that some line passes the check. -/
theorem orderly_checkedLine (sample : List Char) {value : α} (hrow : row? sample = some words)
    (hcheck : check words = .ok value) : (checkedLine expected check).Orderly := by
  have hcompletable : (checkedLine expected check).Completable [] := by
    refine ⟨[sample], value, ?_⟩
    rw [List.filterMap_cons_some hrow]
    exact accepts_checkedLine hcheck
  intro rows
  cases rows with
  | nil =>
    refine @Verdict.exhausted α _ [] (.endOfText expected) hcompletable ?_
    intro lines last hlines
    obtain rfl := List.map_eq_nil_iff.mp hlines
    rfl
  | cons row rest =>
    cases hrow : check row with
    | ok value => exact .accepted rest (accepts_checkedLine hrow)
    | error cause =>
      refine @Verdict.rejected α _ [] row rest cause hcompletable ?_
      intro lines line after last hlines hline
      obtain rfl := List.map_eq_nil_iff.mp hlines
      rw [List.nil_append, valueAt_checkedLine, hline, hrow]

/-- A line that is read and then used is a line that is checked, when both fail alike. -/
theorem valueAt_nextLine_bind_eq {next : TextLine → Reader β} {after : α → Reader β}
    (hnext : ∀ line rest, (next line).valueAt rest line.number =
      match check line.words with
      | .ok value => (after value).valueAt rest line.number
      | .error cause => .error ⟨line.number, cause⟩)
    (lines : List TextLine) (last : Nat) :
    (nextLine expected >>= next).valueAt lines last =
      (checkedLine expected check >>= after).valueAt lines last := by
  rw [valueAt_bind, valueAt_bind]
  cases lines with
  | nil => rfl
  | cons line rest =>
    have hread : (nextLine expected).valueAt (line :: rest) last =
        .ok (line, ⟨rest, line.number⟩) := rfl
    rw [hread, valueAt_checkedLine]
    dsimp only
    rw [hnext]
    cases check line.words <;> rfl

end

/-! ### The checks of a profile -/

/-- The operation that the first word names. -/
def operationOf (words : List String) : Except FaultCause Collective :=
  match Collective.ofName? (words.head?.getD "") with
  | some op => .ok op
  | none => .error (.unknownOperation (words.head?.getD ""))

/-- The number of at most `bits` bits that a word writes. -/
def numberOf (bits : Nat) (expected : Item) (word : Option String) : Except FaultCause Nat :=
  match word.bind fun word => Text.unsigned? bits word.toList with
  | some value => .ok value
  | none => .error (.missing expected)

/-- The number that the first word writes, unless it is zero. -/
def positiveOf (bits : Nat) (expected : Item) (zero : FaultCause) (words : List String) :
    Except FaultCause Nat := do
  let value ← numberOf bits expected words.head?
  if value = 0 then .error zero else .ok value

/-- The alias of an alias line, if the algorithm is known. -/
def aliasOf (choices : List Choice) :
    List String → Except FaultCause (Option (String × AlgorithmId))
  | name :: algorithm :: _ => .ok ((Choice.idOf choices algorithm).toOption.map (name, ·))
  | _ => .error .shortAliasLine

/-- The range of a range line, if its alias is known. -/
def rangeOf (aliases : List (String × AlgorithmId)) :
    List String → Except FaultCause (Option SizeRange)
  | startWord :: stopWord :: name :: _ => do
    let start ← numberOf 64 .rangeStart (some startWord)
    let stop ← numberOf 64 .rangeEnd (some stopWord)
    if stop < start then .error (.reversedRange start stop)
    else .ok ((resolveAlias aliases name).map fun algorithm => { start, stop, algorithm })
  | _ => .error .shortRangeLine

/-- A number that is expected in a word is read from the word. -/
theorem valueAt_number_bind (bits line : Nat) (word : Option String) (expected : Item)
    (next : Nat → Reader β) (lines : List TextLine) (last : Nat) :
    (number bits line word expected >>= next).valueAt lines last =
      match numberOf bits expected word with
      | .ok value => (next value).valueAt lines last
      | .error cause => .error ⟨line, cause⟩ := by
  rw [valueAt_bind]
  unfold number numberOf
  cases word.bind fun word => Text.unsigned? bits word.toList <;> rfl

/-- Reading the next number is checking the first word of a line. -/
theorem valueAt_nextNumber (bits : Nat) (expected : Item) (lines : List TextLine) (last : Nat) :
    (nextNumber bits expected).valueAt lines last =
      (checkedLine expected fun words => numberOf bits expected words.head?).valueAt lines
        last := by
  rw [← bind_pure (checkedLine expected fun words => numberOf bits expected words.head?)]
  refine valueAt_nextLine_bind_eq ?_ lines last
  intro line rest
  rw [← bind_pure (number bits line.number line.words.head? expected), valueAt_number_bind]
  cases numberOf bits expected line.words.head? <;> rfl

/-- The number is checked after its line is read, and the fault is at that line. -/
theorem valueAt_nextPositive (bits : Nat) (expected : Item) (zero : FaultCause)
    (lines : List TextLine) (last : Nat) :
    (nextPositive bits expected zero).valueAt lines last =
      (checkedLine expected (positiveOf bits expected zero)).valueAt lines last := by
  rw [← bind_pure (checkedLine expected (positiveOf bits expected zero))]
  unfold nextPositive nextNumber
  rw [bind_assoc]
  refine valueAt_nextLine_bind_eq ?_ lines last
  intro line rest
  rw [valueAt_number_bind]
  unfold positiveOf
  cases numberOf bits expected line.words.head? with
  | error cause => rfl
  | ok value =>
    by_cases hzero : value = 0
    · subst hzero
      rfl
    · dsimp only [bind, Except.bind]
      rw [if_neg hzero, if_neg hzero]

/-- Reading the operation is checking the name on a line. -/
theorem valueAt_operation (lines : List TextLine) (last : Nat) :
    operation.valueAt lines last =
      (checkedLine .operationName operationOf).valueAt lines last := by
  rw [← bind_pure (checkedLine .operationName operationOf)]
  refine valueAt_nextLine_bind_eq ?_ lines last
  intro line rest
  dsimp only [operationOf]
  cases Collective.ofName? (line.words.head?.getD "") <;> rfl

/-- Reading an alias line is checking it, whatever is warned about. -/
theorem valueAt_aliasLine (path : String) (choices : List Choice) (lines : List TextLine)
    (last : Nat) : (aliasLine path choices).valueAt lines last =
      (checkedLine .aliasLine (aliasOf choices)).valueAt lines last := by
  rw [← bind_pure (checkedLine .aliasLine (aliasOf choices))]
  refine valueAt_nextLine_bind_eq ?_ lines last
  intro line rest
  rcases line.words with _ | ⟨name, _ | ⟨algorithm, others⟩⟩
  · rfl
  · rfl
  · dsimp only [aliasOf]
    cases Choice.idOf choices algorithm <;> rfl

/-- Reading a range line is checking it, whatever is warned about. -/
theorem valueAt_rangeLine (path : String) (aliases : List (String × AlgorithmId))
    (lines : List TextLine) (last : Nat) : (rangeLine path aliases).valueAt lines last =
      (checkedLine .rangeLine (rangeOf aliases)).valueAt lines last := by
  rw [← bind_pure (checkedLine .rangeLine (rangeOf aliases))]
  refine valueAt_nextLine_bind_eq ?_ lines last
  intro line rest
  rcases line.words with _ | ⟨startWord, _ | ⟨stopWord, _ | ⟨name, others⟩⟩⟩
  · rfl
  · rfl
  · rfl
  · dsimp only [rangeOf]
    rw [valueAt_number_bind]
    cases numberOf 64 .rangeStart (some startWord) with
    | error cause => rfl
    | ok start =>
      dsimp only
      rw [valueAt_number_bind]
      cases numberOf 64 .rangeEnd (some stopWord) with
      | error cause => rfl
      | ok stop =>
        dsimp only [bind, Except.bind]
        by_cases hreversed : stop < start
        · rw [if_pos hreversed, if_pos hreversed]
          rfl
        · rw [if_neg hreversed, if_neg hreversed]
          cases resolveAlias aliases name <;> rfl

/-- Repeating readers of the same values gives the same value. -/
theorem valueAt_repeated {item other : Reader (Option α)}
    (hitem : ∀ lines last, item.valueAt lines last = other.valueAt lines last) (count : Nat)
    (lines : List TextLine) (last : Nat) :
    (repeated item count).valueAt lines last = (repeated other count).valueAt lines last := by
  induction count generalizing lines last with
  | zero => rfl
  | succ count ih =>
    unfold repeated
    exact valueAt_bind_congr hitem (fun _ => valueAt_bind_congr ih fun _ _ _ => rfl) lines last

/-- A whole profile, line by line. -/
def checkedProfile : Reader Profile := do
  let collective ← checkedLine .operationName operationOf
  let groupSize ← checkedLine .groupSize (positiveOf 32 .groupSize .zeroGroupSize)
  let aliasCount ← checkedLine .aliasCount fun words => numberOf 64 .aliasCount words.head?
  let aliases ← repeated (checkedLine .aliasLine (aliasOf collective.choices)) aliasCount
  let rangeCount ← checkedLine .rangeCount (positiveOf 64 .rangeCount .zeroRangeCount)
  let ranges ← repeated (checkedLine .rangeLine (rangeOf aliases)) rangeCount
  pure { collective, groupSize, ranges }

/-- Reading a profile is checking its lines one after another. -/
theorem valueAt_profile (path : String) (lines : List TextLine) (last : Nat) :
    (profile path).valueAt lines last = checkedProfile.valueAt lines last := by
  rw [profile_eq]
  unfold checkedProfile
  refine valueAt_bind_congr valueAt_operation (fun collective => ?_) lines last
  refine valueAt_bind_congr (valueAt_nextPositive _ _ _) fun groupSize => ?_
  refine valueAt_bind_congr (valueAt_nextNumber _ _) fun aliasCount => ?_
  refine valueAt_bind_congr (valueAt_repeated (valueAt_aliasLine path _) aliasCount) ?_
  intro aliases
  refine valueAt_bind_congr (valueAt_nextPositive _ _ _) fun rangeCount => ?_
  exact valueAt_bind_congr (valueAt_repeated (valueAt_rangeLine path aliases) rangeCount)
    fun _ _ _ => rfl

/-- **A reader of profiles has a verdict on all rows.** -/
theorem orderly_profile (path : String) : (profile path).Orderly := by
  have hcount {expected : Item} :
      (checkedLine expected fun words => numberOf 64 expected words.head?).Orderly :=
    @orderly_checkedLine _ _ _ ["0"] "0".toList 0 (by decide) rfl
  have hpositive {bits : Nat} {expected : Item} {zero : FaultCause}
      (hone : numberOf bits expected (some "1") = .ok 1) :
      (checkedLine expected (positiveOf bits expected zero)).Orderly := by
    refine @orderly_checkedLine _ _ _ ["1"] "1".toList 1 (by decide) ?_
    rw [positiveOf, List.head?_cons, hone]
    rfl
  refine Orderly.congr ?_ (valueAt_profile path)
  refine (@orderly_checkedLine _ _ _ ["MPI_Bcast"] "MPI_Bcast".toList .bcast (by decide)
    (by decide)).bind fun op => ?_
  refine (hpositive rfl).bind fun groupSize => ?_
  refine hcount.bind fun aliasCount => ?_
  refine (orderly_repeated (@orderly_checkedLine _ _ _ ["a", "b"] "a b".toList _ (by decide) rfl)
    aliasCount).bind fun aliases => ?_
  refine (hpositive rfl).bind fun rangeCount => ?_
  refine (orderly_repeated (@orderly_checkedLine _ _ _ ["0", "0", "a"] "0 0 a".toList _ (by decide)
    rfl) rangeCount).bind fun ranges => ?_
  exact orderly_pure _

end CollectiveTuner.Profile.Reader
