import CollectiveTuner.Proofs.Profile.Format
import CollectiveTuner.Proofs.Profile.Verdicts

/-!
# Where faults are reported

Lines from the top of a profile are viable when some lines after them would make a profile. A
text that is not a profile either has a first line behind which nothing can make a profile any
more, or its lines are viable and merely end too early. The fault is reported at that line, or
one past the last line that counts. Lines that do not count shift the fault and change nothing
else.
-/

namespace CollectiveTuner.Profile

/-! ### Lines that count -/

/-- The line is blank or a comment. -/
def isSkipped (line : List Char) : Bool :=
  (row? line).isNone

/-- The lines up to the last one that counts. -/
def counted (lines : List (List Char)) : List (List Char) :=
  lines.rdropWhile isSkipped

/-- The number of the line that is read last when all lines are read. -/
theorem lastNumber_numbered (lines : List (List Char)) :
    Reader.lastNumber 0 (numbered 0 lines) = (counted lines).length := by
  induction lines using List.reverseRecOn with
  | nil => rfl
  | append_singleton lines line ih =>
    rw [numbered_append, Reader.lastNumber_append, ih, counted, counted]
    unfold isSkipped
    cases hrow : row? line with
    | none =>
      rw [List.rdropWhile_concat_pos _ _ _ (by rw [hrow]; rfl)]
      simp [numbered, hrow, Reader.lastNumber]
    | some words =>
      rw [List.rdropWhile_concat_neg _ _ _ (by rw [hrow]; simp)]
      simp [numbered, hrow, Reader.lastNumber]

/-! ### Viable lines -/

/-- Some lines after these ones make a profile. -/
def Viable (lines : List (List Char)) : Prop :=
  ∃ (following : List (List Char)) (sheet : Sheet),
    sheet.Begins ((lines ++ following).filterMap row?)

/-- The line is the first one behind which nothing makes a profile any more. -/
def IsViolation (earlier : List (List Char)) (line : List Char) : Prop :=
  Viable earlier ∧ ¬ Viable (earlier ++ [line])

/-- The lines make no profile, but with more lines they would. -/
def IsUnfinished (lines : List (List Char)) : Prop :=
  Viable lines ∧ ¬ ∃ sheet : Sheet, sheet.Begins (lines.filterMap row?)

/-- The sheet at the beginning of some rows is still there when more rows follow. -/
theorem Sheet.Begins.append {sheet : Sheet} {rows : List (List String)} (hsheet : sheet.Begins rows)
    (more : List (List String)) : sheet.Begins (rows ++ more) := by
  obtain ⟨written, hfront, hwritten⟩ := hsheet
  exact ⟨written, hfront.trans (List.prefix_append rows more), hwritten⟩

/-- Lines that are viable with more lines after them are so on their own. -/
theorem Viable.of_append {lines more : List (List Char)} (hviable : Viable (lines ++ more)) :
    Viable lines := by
  obtain ⟨following, sheet, hsheet⟩ := hviable
  rw [List.append_assoc] at hsheet
  exact ⟨more ++ following, sheet, hsheet⟩

/-- Two violations among the same lines are one. -/
theorem IsViolation.unique {earlier earlier' later later' : List (List Char)}
    {line line' : List Char} (hviolation : IsViolation earlier line)
    (hviolation' : IsViolation earlier' line')
    (hlines : earlier ++ line :: later = earlier' ++ line' :: later') :
    earlier = earlier' ∧ line = line' := by
  -- what stands before the later one of two violations would be viable
  have hle {first second after after' : List (List Char)} {violating other : List Char}
      (hfirst : IsViolation first violating) (hsecond : IsViolation second other)
      (hsame : first ++ violating :: after = second ++ other :: after') :
      second.length ≤ first.length := by
    by_contra hlt
    have hfront : first ++ [violating] <+: second ++ other :: after' :=
      ⟨after, by rw [← hsame, List.append_assoc]; rfl⟩
    obtain ⟨between, rfl⟩ := List.prefix_of_prefix_length_le hfront (List.prefix_append second _)
      (by rw [List.length_append, List.length_singleton]; omega)
    exact hfirst.2 hsecond.1.of_append
  obtain ⟨hearlier, hfrom⟩ := List.append_inj hlines
    (Nat.le_antisymm (hle hviolation' hviolation hlines.symm) (hle hviolation hviolation' hlines))
  exact ⟨hearlier, (List.cons.inj hfrom).1⟩

/-- A line that does not count violates nothing. -/
theorem IsViolation.not_isSkipped {earlier : List (List Char)} {line : List Char}
    (hviolation : IsViolation earlier line) : isSkipped line = false := by
  by_contra hskipped
  obtain ⟨⟨following, sheet, hsheet⟩, hnot⟩ := hviolation
  have hrow : row? line = none := by simpa [isSkipped] using hskipped
  refine hnot ⟨following, sheet, ?_⟩
  rwa [List.append_assoc, List.filterMap_append, List.singleton_append,
    List.filterMap_cons_none hrow, ← List.filterMap_append]

/-! ### Verdicts and sheets -/

/-- Rows as lines. Their numbers do not matter. -/
def linesOf (rows : List (List String)) : List TextLine :=
  rows.map (TextLine.mk 0)

/-- Each line of a row consists of its words. -/
theorem map_words_linesOf (rows : List (List String)) :
    (linesOf rows).map TextLine.words = rows := by
  rw [linesOf, List.map_map]
  exact List.map_id rows

section

variable {path text : String} {taken : List (List String)} {row : List String}
  {value : Profile} {cause : FaultCause}

/-- The rows that the reader accepts begin with a sheet. -/
theorem exists_begins_of_accepts (haccepts : (Reader.profile path).Accepts taken value) :
    ∃ sheet : Sheet, sheet.Begins taken := by
  have hgives := haccepts (linesOf taken) [] 0 (map_words_linesOf taken)
  obtain ⟨sheet, hsheet⟩ := begins_of_gives ⟨hgives, rfl⟩
  rw [List.append_nil, map_words_linesOf] at hsheet
  exact ⟨sheet, hsheet⟩

/-- No rows with the one that the reader rejects begin with a sheet. -/
theorem not_begins_of_rejects (hrejects : (Reader.profile path).Rejects taken row cause)
    (rest : List (List String)) : ¬ ∃ sheet : Sheet, sheet.Begins (taken ++ row :: rest) := by
  rintro ⟨sheet, hsheet⟩
  rw [← map_words_linesOf (taken ++ row :: rest)] at hsheet
  obtain ⟨after, hvalue, -⟩ := gives_of_begins path 0 hsheet
  have herror := hrejects (linesOf taken) ⟨0, row⟩ (linesOf rest) 0 (map_words_linesOf taken) rfl
  rw [linesOf, List.map_append, List.map_cons] at hvalue
  exact nomatch herror.symm.trans hvalue

/-- Rows that are not enough for the reader do not begin with a sheet. -/
theorem not_begins_of_exhausts (hexhausts : (Reader.profile path).Exhausts taken cause) :
    ¬ ∃ sheet : Sheet, sheet.Begins taken := by
  rintro ⟨sheet, hsheet⟩
  rw [← map_words_linesOf taken] at hsheet
  obtain ⟨after, hvalue, -⟩ := gives_of_begins path 0 hsheet
  exact nomatch (hexhausts _ 0 (map_words_linesOf taken)).symm.trans hvalue

variable {lines earlier later : List (List Char)} {line : List Char}

/-- Lines are viable when the reader can take their rows. -/
theorem viable_of_completable
    (hcompletable : (Reader.profile path).Completable (lines.filterMap row?)) : Viable lines := by
  obtain ⟨following, value, haccepts⟩ := hcompletable
  obtain ⟨sheet, hsheet⟩ := exists_begins_of_accepts haccepts
  rw [← List.filterMap_append] at hsheet
  exact ⟨following, sheet, hsheet⟩

/-- Lines are not viable with one whose row the reader rejects. -/
theorem not_viable_of_rejects (hline : row? line = some row)
    (hrejects : (Reader.profile path).Rejects (earlier.filterMap row?) row cause) :
    ¬ Viable (earlier ++ line :: later) := by
  rintro ⟨following, hsheet⟩
  rw [List.append_assoc, List.cons_append, List.filterMap_append,
    List.filterMap_cons_some hline] at hsheet
  exact not_begins_of_rejects hrejects _ hsheet

/-- Lines whose rows the reader can take, but that are not enough for it, are unfinished. -/
theorem isUnfinished_of_exhausts
    (hcompletable : (Reader.profile path).Completable (lines.filterMap row?))
    (hexhausts : (Reader.profile path).Exhausts (lines.filterMap row?) cause) :
    IsUnfinished lines :=
  ⟨viable_of_completable hcompletable, not_begins_of_exhausts hexhausts⟩

/-- A line whose row the reader rejects is a violation when the reader can take the earlier rows. -/
theorem isViolation_of_rejects (hline : row? line = some row)
    (hcompletable : (Reader.profile path).Completable (earlier.filterMap row?))
    (hrejects : (Reader.profile path).Rejects (earlier.filterMap row?) row cause) :
    IsViolation earlier line :=
  ⟨viable_of_completable hcompletable, not_viable_of_rejects hline hrejects⟩

/-- What the reader makes of the lines of a text. -/
theorem verdict_on_lines (path : String) (lines : List (List Char)) :
    (∃ taken rest value, lines.filterMap row? = taken ++ rest ∧
      (Reader.profile path).Accepts taken value) ∨
    (∃ earlier line later row cause, lines = earlier ++ line :: later ∧ row? line = some row ∧
      (Reader.profile path).Completable (earlier.filterMap row?) ∧
      (Reader.profile path).Rejects (earlier.filterMap row?) row cause) ∨
    ∃ cause, (Reader.profile path).Completable (lines.filterMap row?) ∧
      (Reader.profile path).Exhausts (lines.filterMap row?) cause := by
  generalize hrows : lines.filterMap row? = rows
  cases Reader.orderly_profile path rows with
  | accepted rest haccepts =>
    left
    exact ⟨_, rest, _, rfl, haccepts⟩
  | rejected rest hcompletable hrejects =>
    right; left
    obtain ⟨before, fromRow, rfl, rfl, hfrom⟩ := List.filterMap_eq_append_iff.mp hrows
    obtain ⟨skipped, line, later, rfl, hskipped, hline, -⟩ := List.filterMap_eq_cons_iff.mp hfrom
    have hearlier : (before ++ skipped).filterMap row? = before.filterMap row? := by
      rw [List.filterMap_append, List.filterMap_eq_nil_iff.mpr hskipped, List.append_nil]
    rw [← hearlier] at hcompletable hrejects
    exact ⟨before ++ skipped, line, later, _, _, by rw [List.append_assoc], hline, hcompletable,
      hrejects⟩
  | exhausted hcompletable hexhausts =>
    right; right
    exact ⟨_, hcompletable, hexhausts⟩

/-- The first line that violates the format is the one that the reader rejects. -/
theorem IsViolation.exists_rejects (hviolation : IsViolation earlier line) (path : String) :
    ∃ row cause, row? line = some row ∧
      (Reader.profile path).Rejects (earlier.filterMap row?) row cause := by
  obtain ⟨hviable, hnot⟩ := hviolation
  rcases verdict_on_lines path (earlier ++ [line]) with ⟨taken, rest, value, hrows, haccepts⟩ |
    ⟨earlier', line', later, row, cause, hlines, hline, -, hrejects⟩ | ⟨cause, hcompletable, -⟩
  · obtain ⟨sheet, hsheet⟩ := exists_begins_of_accepts haccepts
    refine absurd ⟨[], sheet, ?_⟩ hnot
    rw [List.append_nil, hrows]
    exact hsheet.append rest
  · rcases List.eq_nil_or_concat' later with rfl | ⟨between, last, rfl⟩
    · obtain ⟨rfl, hlast⟩ := List.append_inj' hlines rfl
      obtain rfl := List.singleton_inj.mp hlast
      exact ⟨row, cause, hline, hrejects⟩
    · rw [← List.cons_append, ← List.append_assoc] at hlines
      obtain ⟨rfl, -⟩ := List.append_inj' hlines rfl
      exact absurd hviable (not_viable_of_rejects hline hrejects)
  · exact absurd (viable_of_completable hcompletable) hnot

/-! ### Faults of texts -/

/-- A text whose first rows are accepted is read. -/
theorem ofText_of_accepts {rest : List (List String)}
    (hrows : (contents text).filterMap row? = taken ++ rest)
    (haccepts : (Reader.profile path).Accepts taken value) :
    (ofText path text).run.value = .ok value := by
  rw [← map_words_numbered 0] at hrows
  obtain ⟨lines, following, hlines, hwords, -⟩ := List.map_eq_append_iff.mp hrows
  rw [← significantLines_eq] at hlines
  have hvalue := haccepts lines following 0 hwords
  rw [← hlines] at hvalue
  rw [value_ofText, (read_of_gives ⟨hvalue, rfl⟩).1]
  rfl

/-- A fault of the reader is the error of the text, with the line and the message of the fault. -/
theorem ofText_of_fault {fault : Fault}
    (hfault : (Reader.profile path).valueAt (numbered 0 (contents text)) 0 = .error fault) :
    (ofText path text).run.value =
      .error (.malformedProfile path fault.line fault.cause.message) := by
  rw [← significantLines_eq] at hfault
  rw [value_ofText, read_of_fault hfault]
  rfl

/-- The error of a text with a rejected row names the line of that row. -/
theorem ofText_of_rejects (hcontents : contents text = earlier ++ line :: later)
    (hline : row? line = some row)
    (hrejects : (Reader.profile path).Rejects (earlier.filterMap row?) row cause) :
    (ofText path text).run.value =
      .error (.malformedProfile path (earlier.length + 1) cause.message) := by
  refine @ofText_of_fault path text ⟨earlier.length + 1, cause⟩ ?_
  rw [hcontents, numbered_append, numbered, hline, Nat.zero_add]
  exact hrejects _ ⟨earlier.length + 1, row⟩ _ 0 (map_words_numbered 0 earlier) rfl

/-- The error of a text that is not enough for the reader names the line behind the last one that
counts. -/
theorem ofText_of_exhausts
    (hexhausts : (Reader.profile path).Exhausts ((contents text).filterMap row?) cause) :
    (ofText path text).run.value =
      .error (.malformedProfile path ((counted (contents text)).length + 1) cause.message) := by
  refine @ofText_of_fault path text ⟨(counted (contents text)).length + 1, cause⟩ ?_
  rw [hexhausts _ 0 (map_words_numbered 0 _), lastNumber_numbered]

end

/-! ### Lines that are put in -/

/-- The lines without those that are put in. -/
def kept (marked : List (List Char × Bool)) : List (List Char) :=
  (marked.filter fun entry => !entry.2).map Prod.fst

/-- The number of lines that are put in. -/
def inserted (marked : List (List Char × Bool)) : Nat :=
  marked.countP Prod.snd

/-- Only lines that do not count are put in. -/
def PadsOnly (marked : List (List Char × Bool)) : Prop :=
  ∀ entry ∈ marked, entry.2 = true → isSkipped entry.1 = true

/-- The lines up to the last one that counts, with those that are put in between. -/
def countedMarked (marked : List (List Char × Bool)) : List (List Char × Bool) :=
  marked.rdropWhile fun entry => isSkipped entry.1

/-- Of no lines none are kept. -/
@[simp] theorem kept_nil : kept [] = [] := rfl

/-- The kept lines of two lists are kept in sequence. -/
@[simp] theorem kept_append (first second : List (List Char × Bool)) :
    kept (first ++ second) = kept first ++ kept second := by
  rw [kept, List.filter_append, List.map_append]
  rfl

/-- A line that is put in is not kept. -/
@[simp] theorem kept_inserted (line : List Char) (rest : List (List Char × Bool)) :
    kept ((line, true) :: rest) = kept rest := rfl

/-- A line that was there is kept. -/
@[simp] theorem kept_original (line : List Char) (rest : List (List Char × Bool)) :
    kept ((line, false) :: rest) = line :: kept rest := rfl

/-- Every line is kept or put in. -/
theorem length_eq_kept_add_inserted (marked : List (List Char × Bool)) :
    marked.length = (kept marked).length + inserted marked := by
  induction marked with
  | nil => rfl
  | cons entry rest ih =>
    have hinserted : inserted (entry :: rest) = inserted rest + if entry.2 = true then 1 else 0 :=
      List.countP_cons
    obtain ⟨line, _ | _⟩ := entry
    · rw [hinserted, kept_original, List.length_cons, List.length_cons, ih]
      exact Nat.add_right_comm _ _ _
    · rw [hinserted, kept_inserted, List.length_cons, ih]
      rfl

section

variable {marked before after : List (List Char × Bool)}

/-- When only lines that do not count are put into a list, so it is with both its parts. -/
theorem PadsOnly.of_append (hpads : PadsOnly (before ++ after)) :
    PadsOnly before ∧ PadsOnly after :=
  ⟨fun entry hentry => hpads entry (List.mem_append_left _ hentry),
    fun entry hentry => hpads entry (List.mem_append_right _ hentry)⟩

/-- Lines that do not count add no row. -/
theorem filterMap_row?_map_fst (hpads : PadsOnly marked) :
    (marked.map Prod.fst).filterMap row? = (kept marked).filterMap row? := by
  induction marked with
  | nil => rfl
  | cons entry rest ih =>
    have hrest := ih fun entry hentry => hpads entry (List.mem_cons_of_mem _ hentry)
    obtain ⟨line, _ | _⟩ := entry
    · rw [kept_original, List.map_cons, List.filterMap_cons, List.filterMap_cons, hrest]
    · have hskipped : isSkipped line = true := hpads (line, true) List.mem_cons_self rfl
      have hnone : row? line = none := by simpa [isSkipped] using hskipped
      rw [kept_inserted, List.map_cons, List.filterMap_cons_none hnone, hrest]

/-- Where a text ends moves by the lines that are put in before. -/
theorem length_counted_map_fst (hpads : PadsOnly marked) :
    (counted (marked.map Prod.fst)).length =
      (counted (kept marked)).length + inserted (countedMarked marked) := by
  induction marked using List.reverseRecOn with
  | nil => rfl
  | append_singleton marked entry ih =>
    obtain ⟨hmarked, hentry⟩ := hpads.of_append
    obtain ⟨line, wasPutIn⟩ := entry
    rw [List.map_append, kept_append, List.map_singleton]
    by_cases hskipped : isSkipped line = true
    · -- neither text counts the line
      have hkept : counted (kept marked ++ kept [(line, wasPutIn)]) = counted (kept marked) := by
        cases wasPutIn with
        | true => rw [kept_inserted, kept_nil, List.append_nil]
        | false => exact List.rdropWhile_concat_pos _ _ _ hskipped
      have hmap : counted (marked.map Prod.fst ++ [line]) = counted (marked.map Prod.fst) :=
        List.rdropWhile_concat_pos _ _ _ hskipped
      have hcounted : countedMarked (marked ++ [(line, wasPutIn)]) = countedMarked marked :=
        List.rdropWhile_concat_pos _ _ _ hskipped
      rw [hkept, hmap, hcounted]
      exact ih hmarked
    · -- both texts count everything up to the line, which was there before
      obtain rfl : wasPutIn = false := by
        by_contra hputIn
        exact hskipped (hentry _ List.mem_cons_self (by simpa using hputIn))
      have hkept : counted (kept marked ++ kept [(line, false)]) = kept marked ++ [line] :=
        List.rdropWhile_concat_neg _ _ _ hskipped
      have hmap : counted (marked.map Prod.fst ++ [line]) = marked.map Prod.fst ++ [line] :=
        List.rdropWhile_concat_neg _ _ _ hskipped
      have hcounted : countedMarked (marked ++ [(line, false)]) = marked ++ [(line, false)] :=
        List.rdropWhile_concat_neg _ _ _ hskipped
      have hinserted : inserted (marked ++ [(line, false)]) = inserted marked := by
        rw [inserted, List.countP_append]
        rfl
      have hlength := length_eq_kept_add_inserted marked
      rw [hkept, hmap, hcounted, hinserted, List.length_append, List.length_append, List.length_map,
        hlength]
      omega

/-- Lines that are put in and do not count leave a profile as it is, and shift a fault. -/
theorem ofText_padded {path text padded : String} (hpads : PadsOnly marked)
    (hcontents : contents text = kept marked) (hpadded : contents padded = marked.map Prod.fst) :
    (∃ profile, (ofText path text).run.value = .ok profile ∧
      (ofText path padded).run.value = .ok profile) ∨
    ∃ line reason place,
      (ofText path text).run.value = .error (.malformedProfile path line reason) ∧
      (ofText path padded).run.value =
        .error (.malformedProfile path (line + inserted place) reason) ∧
      ((∃ violating after, marked = place ++ (violating, false) :: after ∧
          IsViolation (kept place) violating) ∨
        IsUnfinished (contents text) ∧ place = countedMarked marked) := by
  have hrows : (contents padded).filterMap row? = (contents text).filterMap row? := by
    rw [hpadded, hcontents, filterMap_row?_map_fst hpads]
  rcases verdict_on_lines path (contents padded) with ⟨taken, rest, value, hread, haccepts⟩ |
    ⟨earlier, violating, later, row, cause, hlines, hline, hcompletable, hrejects⟩ |
    ⟨cause, hcompletable, hexhausts⟩
  · left
    exact ⟨value, ofText_of_accepts (hrows.symm.trans hread) haccepts,
      ofText_of_accepts hread haccepts⟩
  · have hvalue := ofText_of_rejects hlines hline hrejects
    rw [hpadded] at hlines
    obtain ⟨before, fromLine, rfl, rfl, hfrom⟩ := List.map_eq_append_iff.mp hlines
    obtain ⟨⟨_, wasPutIn⟩, after, rfl, rfl, -⟩ := List.map_eq_cons_iff.mp hfrom
    obtain ⟨hbefore, hfromLine⟩ := hpads.of_append
    obtain rfl : wasPutIn = false := by
      by_contra hputIn
      have hskipped := hfromLine _ List.mem_cons_self (by simpa using hputIn)
      simp [isSkipped, hline] at hskipped
    rw [filterMap_row?_map_fst hbefore] at hcompletable hrejects
    rw [kept_append, kept_original] at hcontents
    rw [List.length_map, length_eq_kept_add_inserted, Nat.add_right_comm] at hvalue
    right
    exact ⟨_, _, before, ofText_of_rejects hcontents hline hrejects, hvalue,
      .inl ⟨_, after, rfl, isViolation_of_rejects hline hcompletable hrejects⟩⟩
  · have hvalue := ofText_of_exhausts hexhausts
    rw [hpadded, length_counted_map_fst hpads, ← hcontents, Nat.add_right_comm] at hvalue
    rw [hrows] at hcompletable hexhausts
    right
    exact ⟨_, _, _, ofText_of_exhausts hexhausts, hvalue,
      .inr ⟨isUnfinished_of_exhausts hcompletable hexhausts, rfl⟩⟩

end

/-! ### The place of a fault -/

/-- **A fault is reported at the first line that violates the format, or one past the last line
that counts when the text ends too early.** The lines after a violation do not matter. Lines that
do not count only shift the fault, by the number of those that are put in before its place. -/
theorem faults_are_at_first_violation (path : String) :
    (∀ text error, (ofText path text).run.value = .error error →
      ∃ line reason, error = .malformedProfile path line reason ∧
        ((∃ earlier violating later, contents text = earlier ++ violating :: later ∧
            IsViolation earlier violating ∧ line = earlier.length + 1) ∨
          IsUnfinished (contents text) ∧ line = (counted (contents text)).length + 1)) ∧
    (∀ earlier violating, IsViolation earlier violating →
      isSkipped violating = false ∧
      ∃ reason, ∀ text later, contents text = earlier ++ violating :: later →
        (ofText path text).run.value =
          .error (.malformedProfile path (earlier.length + 1) reason)) ∧
    ∀ text padded marked, PadsOnly marked → contents text = kept marked →
      contents padded = marked.map Prod.fst →
      (∃ profile, (ofText path text).run.value = .ok profile ∧
        (ofText path padded).run.value = .ok profile) ∨
      ∃ line reason place,
        (ofText path text).run.value = .error (.malformedProfile path line reason) ∧
        (ofText path padded).run.value =
          .error (.malformedProfile path (line + inserted place) reason) ∧
        ((∃ violating after, marked = place ++ (violating, false) :: after ∧
            IsViolation (kept place) violating) ∨
          IsUnfinished (contents text) ∧ place = countedMarked marked) := by
  refine ⟨?_, ?_, fun text padded marked => ofText_padded⟩
  · intro text error herror
    rcases verdict_on_lines path (contents text) with ⟨taken, rest, value, hrows, haccepts⟩ |
      ⟨earlier, violating, later, row, cause, hcontents, hline, hcompletable, hrejects⟩ |
      ⟨cause, hcompletable, hexhausts⟩
    · exact nomatch herror.symm.trans (ofText_of_accepts hrows haccepts)
    · have hvalue := ofText_of_rejects hcontents hline hrejects
      refine ⟨_, _, Except.error.inj (herror.symm.trans hvalue), .inl ?_⟩
      exact ⟨earlier, violating, later, hcontents,
        isViolation_of_rejects hline hcompletable hrejects, rfl⟩
    · have hvalue := ofText_of_exhausts hexhausts
      refine ⟨_, _, Except.error.inj (herror.symm.trans hvalue), .inr ?_⟩
      exact ⟨isUnfinished_of_exhausts hcompletable hexhausts, rfl⟩
  · intro earlier violating hviolation
    obtain ⟨row, cause, hline, hrejects⟩ := hviolation.exists_rejects path
    refine ⟨hviolation.not_isSkipped, cause.message, ?_⟩
    intro text later hcontents
    exact ofText_of_rejects hcontents hline hrejects

/-- The seventh line of the first text has a word for a number. With two more blank lines above it
and a comment below it is the ninth. The second text ends too early, before its comment. -/
theorem faults_are_at_first_violation_bcast :
    (let earlier := ["MPI_Bcast", "# note", "4", "1", "a default", "1"].map String.toList
     IsViolation earlier "1 x a".toList ∧
      (∀ text later, contents text = earlier ++ "1 x a".toList :: later →
        (ofText "test.prf" text).run.value =
          .error (.malformedProfile "test.prf" 7 "expected range end")) ∧
      ∃ place, inserted place = 2 ∧
        (ofText "test.prf" "\nMPI_Bcast\n# note\n4\n1\n \na default\n1\n1 x a\n#").run.value =
          .error (.malformedProfile "test.prf" (7 + inserted place) "expected range end")) ∧
    IsUnfinished (contents "MPI_Bcast\n4\n# end\n") := by
  obtain ⟨hplace, hviolated, hpadding⟩ := faults_are_at_first_violation "test.prf"
  have hcontents : contents "MPI_Bcast\n# note\n4\n1\na default\n1\n1 x a\n" =
      ["MPI_Bcast", "# note", "4", "1", "a default", "1", "1 x a"].map String.toList := by
    decide
  have hvalue : (ofText "test.prf"
      "MPI_Bcast\n# note\n4\n1\na default\n1\n1 x a\n").run.value =
        .error (.malformedProfile "test.prf" 7 "expected range end") := by
    decide +kernel
  have hviolation : IsViolation
      (["MPI_Bcast", "# note", "4", "1", "a default", "1"].map String.toList) "1 x a".toList := by
    obtain ⟨line, reason, herror, hcase⟩ := hplace _ _ hvalue
    obtain ⟨-, rfl, rfl⟩ := Error.malformedProfile.inj herror
    rcases hcase with ⟨earlier, violating, later, hlines, hviolation, hlength⟩ | ⟨-, hlength⟩
    · rw [hcontents] at hlines
      obtain ⟨rfl, hlater⟩ := @List.append_inj _ earlier
        (["MPI_Bcast", "# note", "4", "1", "a default", "1"].map String.toList) _ _ hlines.symm
        (Nat.succ.inj hlength).symm
      obtain ⟨rfl, -⟩ := List.cons.inj hlater
      exact hviolation
    · rw [hcontents] at hlength
      exact absurd hlength (by decide)
  refine ⟨⟨hviolation, ?_, ?_⟩, ?_⟩
  · obtain ⟨-, reason, hreason⟩ := hviolated _ _ hviolation
    have hsame := (hreason _ [] hcontents).symm.trans hvalue
    obtain ⟨-, -, rfl⟩ := Error.malformedProfile.inj (Except.error.inj hsame)
    exact hreason
  · let marked : List (List Char × Bool) :=
      [("", true), ("MPI_Bcast", false), ("# note", false), ("4", false), ("1", false), ("", true),
        ("a default", false), ("1", false), ("1 x a", false), ("#", true)].map fun entry =>
          (entry.1.toList, entry.2)
    have hpadded : (ofText "test.prf"
        "\nMPI_Bcast\n# note\n4\n1\n \na default\n1\n1 x a\n#").run.value =
          .error (.malformedProfile "test.prf" 9 "expected range end") := by
      decide +kernel
    rcases hpadding _ "\nMPI_Bcast\n# note\n4\n1\n \na default\n1\n1 x a\n#" marked
      (by unfold PadsOnly; decide) (hcontents.trans (by decide)) (by decide) with
      ⟨profile, hprofile, -⟩ | ⟨line, reason, place, herror, hshifted, -⟩
    · exact nomatch hprofile.symm.trans hvalue
    · obtain ⟨-, rfl, rfl⟩ := Error.malformedProfile.inj
        (Except.error.inj (hvalue.symm.trans herror))
      obtain ⟨-, hnine, -⟩ := Error.malformedProfile.inj
        (Except.error.inj (hpadded.symm.trans hshifted))
      exact ⟨place, by omega, hshifted⟩
  · have hunfinished : (ofText "test.prf" "MPI_Bcast\n4\n# end\n").run.value =
        .error (.malformedProfile "test.prf" 3 "unexpected end of file, expected alias count") := by
      decide +kernel
    obtain ⟨line, reason, herror, hcase⟩ := hplace _ _ hunfinished
    obtain ⟨-, rfl, rfl⟩ := Error.malformedProfile.inj herror
    rcases hcase with ⟨earlier, violating, later, hlines, hviolation, hlength⟩ | ⟨hcase, -⟩
    · have hend : contents "MPI_Bcast\n4\n# end\n" =
          ["MPI_Bcast", "4"].map String.toList ++ ["# end".toList] := by
        decide
      obtain ⟨-, hlater⟩ := List.append_inj (hend.symm.trans hlines) (Nat.succ.inj hlength)
      obtain ⟨rfl, -⟩ := List.cons.inj hlater
      exact absurd (hviolated _ _ hviolation).1 (by decide)
    · exact hcase

end CollectiveTuner.Profile
