import CollectiveTuner.Proofs.Dictionary.Updates
import CollectiveTuner.Proofs.Settings.Texts

/-!
# Settings and their texts

Merging a settings text gives each key the value of the last line that has one for it. So texts can
be merged in parts, and a text that is merged again changes nothing. Settings that are written out
one to a line are read back as they were.
-/

namespace CollectiveTuner.Settings

/-! ### Lines with a value -/

/-- A line gives a key a value. Without the blanks at its ends, it is no comment and begins with the
key, which is one word. The value stands behind the first blank and has no blanks at its own
ends. -/
def Gives (line : List Char) (key value : String) : Prop :=
  ∃ gap rest, Text.trim line = key.toList ++ gap :: rest ∧
    (∀ c ∈ key.toList, Text.isBlank c = false) ∧ Text.isBlank gap = true ∧
    key.toList.head? ≠ some '#' ∧ Text.trim rest = value.toList

/-- The entry that is read from a line is given by it. -/
theorem gives_of_readLine {line : List Char} {key value : String}
    (hread : readLine line = .entry key value) : Gives line key value := by
  unfold readLine at hread
  dsimp only at hread
  split at hread
  · cases hread
  next hcounts =>
  split at hread
  · next front back hsplit =>
    split at hread
    · cases hread
    · obtain ⟨rfl, rfl⟩ := LineContent.entry.inj hread
      obtain ⟨gap, hgap, hline, hfront⟩ := Text.exists_of_splitOnce hsplit
      refine ⟨gap, back, ?_, ?_, hgap, ?_, ?_⟩
      · rw [String.toList_ofList, hline]
      · rwa [String.toList_ofList]
      · intro hcomment
        apply hcounts
        rw [String.toList_ofList] at hcomment
        rw [hline, List.head?_append, hcomment]
        simp
      · rw [String.toList_ofList]
  · cases hread

/-- The entry that a line gives is read from it. -/
theorem readLine_of_gives {line : List Char} {key value : String} (hgives : Gives line key value) :
    readLine line = .entry key value := by
  obtain ⟨gap, rest, hline, hkey, hgap, hcomment, hrest⟩ := hgives
  have hsplit : Text.splitOnce Text.isBlank (Text.trim line) = some (key.toList, rest) := by
    rw [hline]
    exact Text.splitOnce_append rest hkey hgap
  have hvalue : (Text.trim rest).isEmpty = false := by
    simpa using Text.trim_ne_nil_of_splitOnce hsplit
  -- a trimmed line does not begin with a blank, so there is a key
  have hne : key.toList ≠ [] := by
    intro hnil
    have hstart := (Text.trim_eq_self_iff.mp (Text.trim_trim line)).1 gap
    rw [hline, hnil, hgap] at hstart
    cases hstart rfl
  have hcounts : ¬ ((Text.trim line).isEmpty || (Text.trim line).head? = some '#') := by
    obtain ⟨first, others, hfirst⟩ := List.exists_cons_of_ne_nil hne
    rw [hfirst] at hcomment hline
    rw [hline]
    simpa using hcomment
  unfold readLine
  dsimp only
  rw [if_neg hcounts, hsplit]
  dsimp only
  rw [hvalue, hrest, String.ofList_toList, String.ofList_toList]
  rfl

/-- The value that a line gives a key. -/
def lineValue (key : String) (line : List Char) : Option String :=
  match readLine line with
  | .entry other value => Dictionary.valueAt key (other, value)
  | _ => none

/-- A line has the values that it gives. -/
theorem lineValue_eq_some_iff {key value : String} {line : List Char} :
    lineValue key line = some value ↔ Gives line key value := by
  have hiff : Gives line key value ↔ readLine line = .entry key value :=
    ⟨readLine_of_gives, gives_of_readLine⟩
  rw [hiff, lineValue]
  cases readLine line with
  | entry other found => simp [Dictionary.valueAt_eq_some_iff]
  | skipped | faulty content => simp

/-- A line without a value for a key does not give it one. -/
theorem lineValue_eq_none_iff {key : String} {line : List Char} :
    lineValue key line = none ↔ ∀ value, ¬ Gives line key value := by
  simp only [Option.eq_none_iff_forall_ne_some, ne_eq, lineValue_eq_some_iff]

/-- After a line, a key has the value that the line gives it, or else the one from before. -/
theorem get?_withLine (settings : Settings) (line : List Char) (key : String) :
    (settings.withLine line).get? key = (lineValue key line).or (settings.get? key) := by
  unfold withLine lineValue
  cases readLine line with
  | skipped | faulty content => rfl
  | entry other value =>
    dsimp only
    rw [Dictionary.get?_insert, Dictionary.valueAt]
    split <;> rfl

/-! ### Lines that are read alike -/

/-- Only what is between the blanks at its ends decides what is read from a line. -/
theorem readLine_congr {line line' : List Char} (htrim : Text.trim line = Text.trim line') :
    readLine line = readLine line' := by
  unfold readLine
  rw [htrim]

/-- A carriage return at the end of a line does not matter. -/
theorem readLine_chopReturn (line : List Char) : readLine (Text.chopReturn line) = readLine line :=
  readLine_congr (Text.trim_chopReturn line)

/-- A carriage return at its end does not make a line lack a value. -/
theorem lacksValue_chopReturn (line : List Char) :
    lacksValue (Text.chopReturn line) = lacksValue line := by
  rw [lacksValue, Text.trim_chopReturn, lacksValue]

/-- A carriage return at its end does not change what a line says. -/
theorem withLine_chopReturn (settings : Settings) (line : List Char) :
    settings.withLine (Text.chopReturn line) = settings.withLine line := by
  rw [withLine, readLine_chopReturn, withLine]

/-! ### Texts in parts -/

/-- A line feed parts a text whose settings are taken over one part after the other. -/
theorem foldl_withLine_lines_append (settings : Settings) (text rest : List Char) :
    (Text.lines (text ++ '\n' :: rest)).foldl withLine settings =
      (Text.lines rest).foldl withLine ((Text.lines text).foldl withLine settings) := by
  induction text using Text.line_induction generalizing settings with
  | last line hline =>
    rw [Text.lines_append_cons hline, List.foldl_cons, withLine_chopReturn,
      Text.lines_of_not_mem hline]
    split
    · next hempty =>
      rw [List.isEmpty_iff.mp hempty]
      rfl
    · rfl
  | more line others hline ih =>
    rw [List.append_assoc, List.cons_append, Text.lines_append_cons hline,
      Text.lines_append_cons hline, List.foldl_cons, List.foldl_cons, ih]

/-- Merging a text is taking over its lines in turn. -/
theorem value_merge (settings : Settings) (text : String) :
    (settings.merge text).value = (Text.lines text.toList).foldl withLine settings := by
  rw [merge_eq]

/-- Merging two texts with a line feed between them is merging one after the other. -/
theorem value_merge_append (settings : Settings) (first second : String) :
    (settings.merge (first ++ "\n" ++ second)).value =
      ((settings.merge first).value.merge second).value := by
  have htext : (first ++ "\n" ++ second).toList = first.toList ++ '\n' :: second.toList := by
    rw [String.toList_append, String.toList_append, List.append_assoc]
    rfl
  rw [value_merge, value_merge, value_merge, htext, foldl_withLine_lines_append]

/-- A key has the value from the last line that gives it one. -/
theorem get?_merge (settings : Settings) (text : String) (key : String) :
    (settings.merge text).value.get? key =
      ((Text.lines text.toList).filterMap (lineValue key)).getLast?.or (settings.get? key) := by
  rw [value_merge]
  exact foldl_eq_getLast? (fun settings : Settings => settings.get? key)
    (fun settings line => get?_withLine settings line key) settings _

/-- Whether the last line is ended does not matter. -/
theorem merge_append_feed (settings : Settings) (text : String) :
    settings.merge (text ++ "\n") = settings.merge text := by
  have hvalue : (settings.merge (text ++ "\n")).value = (settings.merge text).value := by
    have happend := settings.value_merge_append text ""
    rwa [String.append_empty] at happend
  have hfrom (content : List Char) (before : Nat) :
      faultyFrom before (Text.lines (content ++ '\n' :: [])) =
        faultyFrom before (Text.lines content) := by
    induction content using Text.line_induction generalizing before with
    | last line hline =>
      rw [Text.lines_append_cons hline, Text.lines_of_not_mem hline]
      cases line with
      | nil => rfl
      | cons first others =>
        rw [if_neg (by simp), faultyFrom, faultyFrom, lacksValue_chopReturn, Text.trim_chopReturn]
        rfl
    | more line rest hline ih =>
      rw [List.append_assoc, List.cons_append, Text.lines_append_cons hline,
        Text.lines_append_cons hline, faultyFrom, faultyFrom, ih]
  have hlines : faultyLines (text ++ "\n") = faultyLines text := by
    rw [faultyLines, String.toList_append]
    exact hfrom text.toList 0
  rw [merge_eq, merge_eq] at hvalue
  rw [merge_eq, merge_eq, hlines]
  exact congrArg₂ Logged.mk hvalue rfl

/-- Merging a text twice is merging it once. -/
theorem value_merge_merge (settings : Settings) (text : String) :
    ((settings.merge text).value.merge text).value = (settings.merge text).value := by
  refine Dictionary.ext_get? fun key => ?_
  rw [get?_merge, get?_merge, ← Option.or_assoc, Option.or_self]

/-- The last line with a value for a key decides, and without such a line nothing changes. -/
theorem get?_merge_cases (settings : Settings) (text key : String) :
    (∃ earlier line later value, Text.lines text.toList = earlier ++ line :: later ∧
        Gives line key value ∧ (∀ other ∈ later, ∀ found, ¬ Gives other key found) ∧
        (settings.merge text).value.get? key = some value) ∨
      (∀ line ∈ Text.lines text.toList, ∀ value, ¬ Gives line key value) ∧
        (settings.merge text).value.get? key = settings.get? key := by
  rw [get?_merge, List.getLast?_filterMap]
  cases hlast : (Text.lines text.toList).reverse.findSome? (lineValue key) with
  | some value =>
    obtain ⟨later, line, earlier, hlines, hline, hlater⟩ := List.findSome?_eq_some_iff.mp hlast
    refine .inl ⟨earlier.reverse, line, later.reverse, value, ?_, lineValue_eq_some_iff.mp hline,
      fun other hother => ?_, rfl⟩
    · rw [List.reverse_eq_iff] at hlines
      simpa using hlines
    · exact lineValue_eq_none_iff.mp (hlater other (List.mem_reverse.mp hother))
  | none =>
    refine .inr ⟨fun line hline => ?_, rfl⟩
    exact lineValue_eq_none_iff.mp
      (List.findSome?_eq_none_iff.mp hlast line (List.mem_reverse.mpr hline))

/-! ### Settings written out -/

/-- A key and a value that a line can hold. -/
structure IsWritable (key value : String) : Prop where
  key_ne : key ≠ ""
  key_blankFree : ∀ c ∈ key.toList, Text.isBlank c = false
  key_noComment : key.toList.head? ≠ some '#'
  value_ne : value ≠ ""
  value_trimmed : Text.trim value.toList = value.toList
  value_feedFree : '\n' ∉ value.toList

/-- A setting on a line. -/
def writtenLine (entry : String × String) : String :=
  entry.1 ++ " " ++ entry.2

/-- Settings written out one to a line. -/
def writtenText : List (String × String) → String
  | [] => ""
  | entry :: rest => writtenLine entry ++ "\n" ++ writtenText rest

variable {entry : String × String} {entries : List (String × String)}

/-- A written line is the key, a blank and the value. -/
theorem toList_writtenLine (entry : String × String) :
    (writtenLine entry).toList = entry.1.toList ++ ' ' :: entry.2.toList := by
  rw [writtenLine, String.toList_append, String.toList_append, List.append_assoc]
  rfl

/-- A written line gives its key its value. -/
theorem gives_writtenLine (hentry : IsWritable entry.1 entry.2) :
    Gives (writtenLine entry).toList entry.1 entry.2 := by
  have hkey : entry.1.toList ≠ [] := fun hnil => hentry.key_ne (String.toList_eq_nil_iff.mp hnil)
  have hvalue : entry.2.toList ≠ [] :=
    fun hnil => hentry.value_ne (String.toList_eq_nil_iff.mp hnil)
  have htrim : Text.trim (writtenLine entry).toList = (writtenLine entry).toList := by
    obtain ⟨-, hlast⟩ := Text.trim_eq_self_iff.mp hentry.value_trimmed
    refine Text.trim_eq_self_iff.mpr ⟨fun c hc => ?_, fun c hc => ?_⟩
    · rw [toList_writtenLine, List.head?_append_of_ne_nil _ hkey] at hc
      exact hentry.key_blankFree c (List.mem_of_mem_head? hc)
    · rw [toList_writtenLine, List.getLast?_append_of_ne_nil _ (List.cons_ne_nil _ _),
        List.getLast?_cons_of_ne_nil hvalue] at hc
      exact hlast c hc
  refine ⟨' ', entry.2.toList, ?_, hentry.key_blankFree, rfl, hentry.key_noComment,
    hentry.value_trimmed⟩
  rw [htrim, toList_writtenLine]

/-- The lines of a written text are its entries. -/
theorem lines_writtenText (hentries : ∀ entry ∈ entries, IsWritable entry.1 entry.2) :
    Text.lines (writtenText entries).toList =
      entries.map fun entry => Text.chopReturn (writtenLine entry).toList := by
  induction entries with
  | nil => rfl
  | cons entry rest ih =>
    have hentry := hentries entry List.mem_cons_self
    have hfree : '\n' ∉ (writtenLine entry).toList := by
      rw [toList_writtenLine]
      intro hmem
      rcases List.mem_append.mp hmem with hkey | hvalue
      · exact Bool.noConfusion (hentry.key_blankFree '\n' hkey)
      · rcases List.mem_cons.mp hvalue with hgap | hvalue
        · exact absurd hgap (by decide)
        · exact hentry.value_feedFree hvalue
    have htext : (writtenText (entry :: rest)).toList =
        (writtenLine entry).toList ++ '\n' :: (writtenText rest).toList := by
      rw [writtenText, String.toList_append, String.toList_append, List.append_assoc]
      rfl
    rw [htext, Text.lines_append_cons hfree, List.map_cons,
      ih fun other hother => hentries other (List.mem_cons_of_mem _ hother)]

/-- A written text inserts its entries and has no faulty line. -/
theorem merge_writtenText (settings : Settings)
    (hentries : ∀ entry ∈ entries, IsWritable entry.1 entry.2) :
    settings.merge (writtenText entries) = pure (settings.insertAll entries) := by
  have hread (entry : String × String) (hentry : entry ∈ entries) :
      readLine (Text.chopReturn (writtenLine entry).toList) = .entry entry.1 entry.2 := by
    rw [readLine_chopReturn]
    exact readLine_of_gives (gives_writtenLine (hentries entry hentry))
  have hvalue : (settings.merge (writtenText entries)).value = settings.insertAll entries := by
    rw [value_merge, lines_writtenText hentries, List.foldl_map]
    refine List.foldl_ext _ _ _ fun result entry hentry => ?_
    rw [withLine, hread entry hentry]
  have hfaulty : faultyLines (writtenText entries) = [] := by
    refine List.eq_nil_iff_forall_not_mem.mpr fun found hfound => ?_
    obtain ⟨earlier, line, later, hlines, hlacks, -⟩ := mem_faultyLines.mp hfound
    have hline : line ∈ Text.lines (writtenText entries).toList := by
      rw [hlines]
      exact List.mem_append_right _ List.mem_cons_self
    rw [lines_writtenText hentries] at hline
    obtain ⟨entry, hentry, rfl⟩ := List.mem_map.mp hline
    have hcontent := readLine_eq_faulty_iff.mpr ⟨hlacks, rfl⟩
    rw [hread entry hentry] at hcontent
    cases hcontent
  rw [merge_eq] at hvalue
  rw [merge_eq, hfaulty]
  exact congrArg₂ Logged.mk hvalue rfl

/-- **Settings texts compose, and settings written out are restored.** A text in two parts with a
line feed between them does what the parts do one after the other, and a text that is merged again
changes nothing. After a text, a key has the value of the last line that gives it one, or its value
from before when no line does.

Let the keys be words that do not begin with `#`, and let the values be trimmed, not empty and
without line feeds. The settings written out one to a line, in any order and with the last line
ended or not, are restored by merging the text into settings that have no other keys, and nothing
is reported. -/
theorem merge_composes_and_restores (settings : Settings) :
    (∀ first second : String, (settings.merge (first ++ "\n" ++ second)).value =
        ((settings.merge first).value.merge second).value) ∧
      (∀ text : String,
        ((settings.merge text).value.merge text).value = (settings.merge text).value) ∧
      (∀ text key : String,
        (∃ earlier line later value, Text.lines text.toList = earlier ++ line :: later ∧
            Gives line key value ∧ (∀ other ∈ later, ∀ found, ¬ Gives other key found) ∧
            (settings.merge text).value.get? key = some value) ∨
          (∀ line ∈ Text.lines text.toList, ∀ value, ¬ Gives line key value) ∧
            (settings.merge text).value.get? key = settings.get? key) ∧
      ((∀ key value, settings.get? key = some value → IsWritable key value) →
        ∀ entries : List (String × String), entries.Perm settings.entries →
        ∀ text : String, text = writtenText entries ∨ text ++ "\n" = writtenText entries →
        ∀ others : Settings, (∀ key, settings.get? key = none → others.get? key = none) →
          others.merge text = pure settings) := by
  refine ⟨settings.value_merge_append, settings.value_merge_merge, settings.get?_merge_cases,
    fun hwritable entries hperm text htext others hothers => ?_⟩
  have hentries : ∀ entry ∈ entries, IsWritable entry.1 entry.2 := fun entry hentry =>
    hwritable entry.1 entry.2 (Dictionary.mem_entries_iff.mp (hperm.mem_iff.mp hentry))
  have hmerge : others.merge text = others.merge (writtenText entries) := by
    rcases htext with rfl | hfeed
    · rfl
    · rw [← hfeed, merge_append_feed]
  have hsettings : others.insertAll entries = settings := by
    refine Dictionary.ext_get? fun key => ?_
    rw [Dictionary.get?_insertAll_of_perm others hperm]
    cases hget : settings.get? key with
    | some value => rfl
    | none => rw [hothers key hget, Option.or_none]
  rw [hmerge, merge_writtenText others hentries, hsettings]

/-- Values may hold blanks and number signs, and the order of the lines is free. -/
theorem merge_composes_and_restores_spaced :
    let settings : Settings := (Dictionary.empty.insert "path" "a b  #c").insert "n#" "1"
    let others : Settings := Dictionary.empty.insert "path" "d"
    let entries := [("path", "a b  #c"), ("n#", "1")]
    let text := "path a b  #c\nn# 1"
    (∀ key value, settings.get? key = some value → IsWritable key value) ∧
      entries.Perm settings.entries ∧ text ++ "\n" = writtenText entries ∧
      (∀ key, settings.get? key = none → others.get? key = none) ∧
      others.merge text = pure settings := by
  intro settings others entries text
  have hpath : IsWritable "path" "a b  #c" :=
    ⟨by decide, List.forall_iff_forall_mem.mp (by decide), by decide, by decide, rfl, by decide⟩
  have hcount : IsWritable "n#" "1" :=
    ⟨by decide, List.forall_iff_forall_mem.mp (by decide), by decide, by decide, rfl, by decide⟩
  have hwritable : ∀ key value, settings.get? key = some value → IsWritable key value := by
    intro key value hget
    rcases List.mem_pair.mp (Dictionary.mem_entries_iff.mpr hget) with hentry | hentry
    · obtain ⟨rfl, rfl⟩ := Prod.mk.inj hentry
      exact hcount
    · obtain ⟨rfl, rfl⟩ := Prod.mk.inj hentry
      exact hpath
  have hperm : entries.Perm settings.entries := List.Perm.swap _ _ _
  have htext : text ++ "\n" = writtenText entries := by decide +kernel
  have hothers : ∀ key, settings.get? key = none → others.get? key = none := by
    intro key hnone
    simp only [settings, others, Dictionary.get?_insert] at hnone ⊢
    split at hnone
    · cases hnone
    · split at hnone
      · cases hnone
      · next hother => rwa [if_neg hother]
  obtain ⟨-, -, -, hrestores⟩ := settings.merge_composes_and_restores
  exact ⟨hwritable, hperm, htext, hothers,
    hrestores hwritable entries hperm text (.inr htext) others hothers⟩

end CollectiveTuner.Settings
