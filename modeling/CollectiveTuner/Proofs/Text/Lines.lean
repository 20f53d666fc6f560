import CollectiveTuner.Files
import CollectiveTuner.Text.Blank
import CollectiveTuner.Text.Line
import Mathlib.Data.List.DropRight

/-!
# Lines and trimming

The lines of a text come off its front one after another, up to an unterminated last one. Any lines
without line feeds are the lines of some text.
-/

namespace CollectiveTuner.Text

/-! ### Trimming -/

/-- Trimming leaves no blank at the front. -/
theorem trimStart_trim (line : List Char) : trimStart (trim line) = trim line := by
  refine List.dropWhile_eq_self_iff.mpr fun hpos => ?_
  have hfront : trim line <+: trimStart line := List.rdropWhile_prefix isBlank _
  rw [hfront.getElem hpos]
  exact List.dropWhile_get_zero_not _ line (hpos.trans_le hfront.length_le)

/-- Trimming leaves no blank at the end. -/
theorem trimEnd_trim (line : List Char) : trimEnd (trim line) = trim line :=
  List.rdropWhile_idempotent isBlank _

/-- A trimmed line has no blanks at its ends to trim. -/
theorem trim_trim (line : List Char) : trim (trim line) = trim line := by
  rw [trim, trimStart_trim, trimEnd_trim]

/-- A line is trimmed when it has no blank at its ends. -/
theorem trim_eq_self_iff {line : List Char} :
    trim line = line ↔ (∀ c ∈ line.head?, isBlank c = false) ∧
      ∀ c ∈ line.getLast?, isBlank c = false := by
  have hstart : trimStart line = line ↔ ∀ c ∈ line.head?, isBlank c = false := by
    rw [trimStart, List.dropWhile_eq_self_iff]
    cases line <;> simp
  have hend : trimEnd line = line ↔ ∀ c ∈ line.getLast?, isBlank c = false := by
    rw [show trimEnd line = line.rdropWhile isBlank from rfl, List.rdropWhile_eq_self_iff]
    rcases eq_or_ne line [] with rfl | hne
    · simp
    · simp [List.getLast?_eq_some_getLast hne, hne]
  rw [← hstart, ← hend]
  constructor
  · intro htrim
    have hfront := trimStart_trim line
    have hback := trimEnd_trim line
    rw [htrim] at hfront hback
    exact ⟨hfront, hback⟩
  · rintro ⟨hfront, hback⟩
    rw [trim, hfront, hback]

/-- Nothing is left of blanks only. -/
theorem trim_eq_nil_iff {line : List Char} : trim line = [] ↔ ∀ c ∈ line, isBlank c = true := by
  have htrim : trim line = [] ↔ ∀ c ∈ trimStart line, isBlank c = true :=
    List.rdropWhile_eq_nil_iff
  rw [htrim]
  constructor
  · intro hblank c hc
    rw [← List.takeWhile_append_dropWhile (p := isBlank) (l := line)] at hc
    rcases List.mem_append.mp hc with hbefore | hback
    · exact List.mem_takeWhile_imp hbefore
    · exact hblank c hback
  · intro hblank c hc
    exact hblank c ((List.dropWhile_sublist isBlank).mem hc)

/-- What stands behind a blank in a trimmed line is not blank. -/
theorem trim_ne_nil_of_splitOnce {line key value : List Char}
    (hsplit : splitOnce isBlank (trim line) = some (key, value)) : trim value ≠ [] := by
  intro hnil
  obtain ⟨c, hc, hline, -⟩ := exists_of_splitOnce hsplit
  have hblank : ∀ d ∈ c :: value, isBlank d = true := by
    intro d hd
    rcases List.mem_cons.mp hd with rfl | hd
    · exact hc
    · exact trim_eq_nil_iff.mp hnil d hd
  have hends := trimEnd_trim line
  rw [hline] at hends
  have hne : key ++ c :: value ≠ [] :=
    List.append_ne_nil_of_right_ne_nil key (List.cons_ne_nil c value)
  refine List.rdropWhile_eq_self_iff.mp hends hne (hblank _ ?_)
  rw [List.getLast_append_of_ne_nil _ (List.cons_ne_nil c value)]
  exact List.getLast_mem _

/-! ### Lines -/

variable {line rest text : List Char}

/-- A text without line feeds is one line, unless it is empty. -/
theorem lines_of_not_mem (hline : '\n' ∉ line) :
    lines line = if line.isEmpty then [] else [line] := by
  have hpieces : line.splitOnP (· == '\n') = [line] :=
    List.splitOnP_eq_singleton fun c hc => by
      rw [beq_eq_false_iff_ne]
      rintro rfl
      exact hline hc
  rw [lines, hpieces]
  rfl

/-- The first line comes off at the first line feed. -/
theorem lines_append_cons (hline : '\n' ∉ line) (rest : List Char) :
    lines (line ++ '\n' :: rest) = chopReturn line :: lines rest := by
  have hpieces : (line ++ '\n' :: rest).splitOnP (· == '\n') =
      line :: rest.splitOnP (· == '\n') := by
    refine List.splitOnP_append_cons_of_forall_mem (fun c hc => ?_) _ rfl _
    rw [beq_eq_false_iff_ne]
    rintro rfl
    exact hline hc
  have hne : rest.splitOnP (· == '\n') ≠ [] := List.splitOnP_ne_nil _ _
  rw [lines, lines, hpieces, List.dropLast_cons_of_ne_nil hne, List.getLast?_cons_of_ne_nil hne]
  rfl

/-- Carriage returns and other blanks at the end of a line do not count when it is trimmed. -/
theorem trim_chopReturn (line : List Char) : trim (chopReturn line) = trim line := by
  have hconcat (front : List Char) : trim (front ++ ['\r']) = trim front := by
    have hreturn : isBlank '\r' = true := rfl
    have hstart : trimStart (front ++ ['\r']) =
        if (trimStart front).isEmpty then [] else trimStart front ++ ['\r'] := by
      rw [trimStart, trimStart, List.dropWhile_append, List.dropWhile_cons, if_pos hreturn,
        List.dropWhile_nil]
    rw [trim, trim, hstart]
    split
    · next hempty => rw [List.isEmpty_iff.mp hempty]
    · exact List.rdropWhile_concat_pos isBlank _ '\r' hreturn
  unfold chopReturn
  split
  · next hlast =>
    obtain ⟨front, rfl⟩ := List.getLast?_eq_some_iff.mp hlast
    rw [List.dropLast_concat, hconcat]
  · rfl

/-- A text is a line without line feeds, or such a line before a line feed and another text. -/
@[elab_as_elim]
theorem line_induction {motive : List Char → Prop} (text : List Char)
    (last : ∀ line, '\n' ∉ line → motive line)
    (more : ∀ line rest, '\n' ∉ line → motive rest → motive (line ++ '\n' :: rest)) :
    motive text := by
  -- induction on the length, because the first line comes off as a whole
  induction hlength : text.length using Nat.strongRecOn generalizing text with
  | ind length ih =>
    cases hsplit : splitOnce (· == '\n') text with
    | none => exact last text fun hfeed => by simpa using splitOnce_eq_none_iff.mp hsplit '\n' hfeed
    | some parts =>
      obtain ⟨c, hc, rfl, hfirst⟩ := exists_of_splitOnce hsplit
      obtain rfl := beq_iff_eq.mp hc
      refine more parts.1 parts.2 (fun hfeed => by simpa using hfirst '\n' hfeed)
        (ih parts.2.length ?_ parts.2 rfl)
      rw [← hlength, List.length_append, List.length_cons]
      omega

/-- No line holds a line feed. -/
theorem not_mem_of_mem_lines (hmem : line ∈ lines text) : '\n' ∉ line := by
  induction text using line_induction with
  | last whole hwhole =>
    rw [lines_of_not_mem hwhole] at hmem
    split at hmem
    · cases hmem
    · rwa [List.mem_singleton.mp hmem]
  | more first rest hfirst ih =>
    rw [lines_append_cons hfirst] at hmem
    rcases List.mem_cons.mp hmem with rfl | hmem
    · intro hfeed
      unfold chopReturn at hfeed
      split at hfeed
      · exact hfirst (List.dropLast_subset _ hfeed)
      · exact hfirst hfeed
    · exact ih hmem

/-- Any lines without line feeds are the lines of a text. -/
theorem exists_lines_eq {content : List (List Char)} (hfree : ∀ line ∈ content, '\n' ∉ line) :
    ∃ text : String, lines text.toList = content := by
  -- a carriage return before each line feed is one that `lines` takes off again
  suffices hlist : ∃ text : List Char, lines text = content by
    obtain ⟨text, htext⟩ := hlist
    exact ⟨String.ofList text, by rw [String.toList_ofList, htext]⟩
  induction content with
  | nil => exact ⟨[], rfl⟩
  | cons line rest ih =>
    obtain ⟨text, htext⟩ := ih fun line hline => hfree line (List.mem_cons_of_mem _ hline)
    have hline : '\n' ∉ line ++ ['\r'] := by
      have hhead := hfree line List.mem_cons_self
      simp [hhead]
    refine ⟨(line ++ ['\r']) ++ '\n' :: text, ?_⟩
    rw [lines_append_cons hline, htext, chopReturn]
    simp

end CollectiveTuner.Text

namespace CollectiveTuner.Files

/-- The files with a text at a path. -/
def withText (files : Files) (path text : String) : Files where
  read other := if other = path then .ok text.toUTF8.data.toList else files.read other
  list := files.list

/-- A text that was written to a file is read from it. -/
theorem readText_withText (files : Files) (path text : String) :
    (files.withText path text).readText path = .ok text := by
  have htext : String.fromUTF8? text.toUTF8 = some text := by
    unfold String.fromUTF8?
    rw [String.toUTF8_eq_toByteArray, dif_pos text.isValidUTF8]
    rfl
  unfold readText withText
  simp only [if_pos, bind, Except.bind, Array.toArray_toList]
  rw [htext]
  rfl

end CollectiveTuner.Files
