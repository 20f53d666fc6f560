import CollectiveTuner.Proofs.Text.Lines
import CollectiveTuner.Settings

/-!
# Settings texts

A settings text is merged line by line. What a line says changes the settings, and each line that
lacks a value is reported.
-/

namespace CollectiveTuner.Settings

/-! ### Single lines -/

/-- The line counts but has no value: without the blanks at its ends it is one word. -/
def lacksValue (line : List Char) : Bool :=
  let line := Text.trim line
  !line.isEmpty && line.head? != some '#' && line.all fun c => !Text.isBlank c

/-- Just the lines that lack a value are faulty. -/
theorem readLine_eq_faulty_iff {line : List Char} {content : String} :
    readLine line = .faulty content ↔
      lacksValue line = true ∧ content = String.ofList (Text.trim line) := by
  unfold readLine lacksValue
  dsimp only
  by_cases hskipped : (Text.trim line).isEmpty || (Text.trim line).head? = some '#'
  · rw [if_pos hskipped]
    have hcounts : (!(Text.trim line).isEmpty && (Text.trim line).head? != some '#') = false := by
      rcases Bool.or_eq_true_iff.mp hskipped with hempty | hcomment
      · rw [hempty]
        rfl
      · rw [decide_eq_true_iff.mp hcomment, bne_self_eq_false, Bool.and_false]
    rw [hcounts]
    simp
  · rw [if_neg hskipped]
    obtain ⟨hempty, hcomment⟩ := not_or.mp (mt Bool.or_eq_true_iff.mpr hskipped)
    have hcounts : (!(Text.trim line).isEmpty && (Text.trim line).head? != some '#') = true := by
      rw [Bool.not_eq_true] at hempty
      rw [hempty]
      simpa using hcomment
    rw [hcounts, Bool.true_and]
    cases hsplit : Text.splitOnce Text.isBlank (Text.trim line) with
    | none =>
      have hword : ((Text.trim line).all fun c => !Text.isBlank c) = true := by
        simpa using Text.splitOnce_eq_none_iff.mp hsplit
      simp [hword, eq_comm]
    | some parts =>
      obtain ⟨c, hc, hline, -⟩ := Text.exists_of_splitOnce hsplit
      have hvalue : (Text.trim parts.2).isEmpty = false := by
        simpa using Text.trim_ne_nil_of_splitOnce hsplit
      have hwords : ((Text.trim line).all fun c => !Text.isBlank c) = false := by
        rw [hline]
        simp [hc]
      simp [hvalue, hwords]

/-- The settings with what a line says. -/
def withLine (settings : Settings) (line : List Char) : Settings :=
  match readLine line with
  | .entry key value => settings.insert key value
  | _ => settings

/-- What is reported of a line without a value. -/
def faultyLine (number : Nat) (content : String) : Event :=
  ⟨.warn, "faulty settings line", [("line", .number number), ("content", .text content)]⟩

/-- A line that lacks a value changes nothing. -/
theorem withLine_of_lacksValue (settings : Settings) {line : List Char}
    (hlacks : lacksValue line = true) : settings.withLine line = settings := by
  unfold withLine
  rw [readLine_eq_faulty_iff.mpr ⟨hlacks, rfl⟩]

/-- A line changes the settings as it says, and is reported when it lacks a value. -/
theorem mergeLine_eq (settings : Settings) (number : Nat) (line : List Char) :
    settings.mergeLine number line = ⟨settings.withLine line,
      if lacksValue line then [faultyLine number (String.ofList (Text.trim line))] else []⟩ := by
  unfold mergeLine withLine
  cases hread : readLine line with
  | faulty content =>
    obtain ⟨hlacks, rfl⟩ := readLine_eq_faulty_iff.mp hread
    rw [if_pos hlacks]
    rfl
  | skipped | entry key value =>
    have hnot : ¬ lacksValue line = true := by
      intro hlacks
      have hfaulty := readLine_eq_faulty_iff.mpr ⟨hlacks, rfl⟩
      rw [hread] at hfaulty
      cases hfaulty
    rw [if_neg hnot]
    rfl

/-! ### Texts -/

/-- The lines that lack a value, with their numbers, when `before` lines stand before them. -/
def faultyFrom (before : Nat) : List (List Char) → List (Nat × String)
  | [] => []
  | line :: rest =>
    if lacksValue line then
      (before + 1, String.ofList (Text.trim line)) :: faultyFrom (before + 1) rest
    else faultyFrom (before + 1) rest

/-- The lines of a text that lack a value, with their numbers. -/
def faultyLines (text : String) : List (Nat × String) :=
  faultyFrom 0 (Text.lines text.toList)

/-- A text changes the settings line by line, and its lines that lack a value are reported. -/
theorem merge_eq (settings : Settings) (text : String) :
    settings.merge text = ⟨(Text.lines text.toList).foldl withLine settings,
      (faultyLines text).map fun entry => faultyLine entry.1 entry.2⟩ := by
  have hfrom (lines : List (List Char)) (before : Nat) :
      (lines.zipIdx before).foldlM
        (fun settings entry => mergeLine settings (entry.2 + 1) entry.1) settings =
        ⟨lines.foldl withLine settings,
          (faultyFrom before lines).map fun entry => faultyLine entry.1 entry.2⟩ := by
    induction lines generalizing settings before with
    | nil => rfl
    | cons line rest ih =>
      rw [List.zipIdx_cons, List.foldlM_cons]
      dsimp only
      rw [mergeLine_eq]
      dsimp only [bind]
      rw [ih, faultyFrom, List.foldl_cons]
      by_cases hlacks : lacksValue line = true
      · simp only [if_pos hlacks, List.singleton_append, List.map_cons]
      · simp only [if_neg hlacks, List.nil_append]
  exact hfrom (Text.lines text.toList) 0

/-- The faulty lines are those that lack a value, each with its own number. -/
theorem mem_faultyFrom {before number : Nat} {content : String} {lines : List (List Char)} :
    (number, content) ∈ faultyFrom before lines ↔
      ∃ earlier line later, lines = earlier ++ line :: later ∧ lacksValue line = true ∧
        number = before + earlier.length + 1 ∧ content = String.ofList (Text.trim line) := by
  induction lines generalizing before with
  | nil => simp [faultyFrom]
  | cons first rest ih =>
    have hsplit : (number, content) ∈ faultyFrom before (first :: rest) ↔
        (lacksValue first = true ∧ number = before + 1 ∧
          content = String.ofList (Text.trim first)) ∨
          (number, content) ∈ faultyFrom (before + 1) rest := by
      rw [faultyFrom]
      split
      · next hlacks => rw [List.mem_cons, Prod.mk.injEq, and_iff_right hlacks]
      · next hlacks => rw [or_iff_right fun hfirst => hlacks hfirst.1]
    rw [hsplit, ih]
    constructor
    · rintro (⟨hlacks, hnumber, hcontent⟩ | ⟨earlier, line, later, rfl, hlacks, hnumber, hcontent⟩)
      · exact ⟨[], first, rest, rfl, hlacks, hnumber, hcontent⟩
      · refine ⟨first :: earlier, line, later, rfl, hlacks, ?_, hcontent⟩
        rw [List.length_cons]
        omega
    · rintro ⟨_ | ⟨head, earlier⟩, line, later, hlines, hlacks, hnumber, hcontent⟩
      · obtain ⟨rfl, -⟩ := List.cons.inj hlines
        exact .inl ⟨hlacks, hnumber, hcontent⟩
      · obtain ⟨-, rfl⟩ := List.cons.inj hlines
        refine .inr ⟨earlier, line, later, rfl, hlacks, ?_, hcontent⟩
        rw [List.length_cons] at hnumber
        omega

/-- The numbers and contents of the lines that lack a value. -/
theorem mem_faultyLines {number : Nat} {content text : String} :
    (number, content) ∈ faultyLines text ↔
      ∃ earlier line later, Text.lines text.toList = earlier ++ line :: later ∧
        lacksValue line = true ∧ number = earlier.length + 1 ∧
        content = String.ofList (Text.trim line) := by
  rw [faultyLines, mem_faultyFrom]
  simp only [Nat.zero_add]

/-- A line that lacks a value does not matter. -/
theorem value_merge_of_lacksValue (settings : Settings) {text text' : String}
    {earlier later : List (List Char)} {line : List Char} (hlacks : lacksValue line = true)
    (htext : Text.lines text.toList = earlier ++ line :: later)
    (htext' : Text.lines text'.toList = earlier ++ later) :
    (settings.merge text').value = (settings.merge text).value := by
  rw [merge_eq, merge_eq, htext, htext', List.foldl_append, List.foldl_append, List.foldl_cons,
    withLine_of_lacksValue _ hlacks]

end CollectiveTuner.Settings
