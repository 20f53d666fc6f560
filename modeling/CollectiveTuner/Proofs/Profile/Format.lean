import CollectiveTuner.Proofs.Profile.Reading

/-!
# The profile format

A text is a profile exactly when its rows begin with a written sheet. What the sheet says is
what the profile holds, apart from the lines that name something unknown, and each of these is
reported.
-/

namespace CollectiveTuner.Profile

/-! ### What follows the range table -/

/-- Reporting something about each item leaves one event for each. -/
theorem events_forM_report {γ : Type} (level : Level) (message : γ → String)
    (fields : List (String × FieldValue)) (items : List γ) :
    (items.forM fun item => report level (message item) fields).events =
      items.map fun item => ⟨level, message item, fields⟩ := by
  induction items with
  | nil => rfl
  | cons item rest ih => exact congrArg _ ih

/-- Each warning is one complaint with the first of its fields. -/
theorem complaints_map_warn {γ : Type} (message : γ → String)
    (fields : List (String × FieldValue)) (items : List γ) :
    complaints (items.map fun item => ⟨.warn, message item, fields⟩) =
      items.map fun item => (message item, fields.head?) := by
  rw [complaints, List.filter_eq_self.mpr (by simp), List.map_map]
  rfl

/-- One warning is reported for each overlap. -/
theorem complaints_reportRest (path : String) (profile : Profile) (trailing : Nat) :
    complaints (reportRest path profile trailing).events = profile.overlappingRanges.map fun pair =>
      about path s!"ranges {pair.1} and {pair.2} overlap, the earlier one wins" := by
  have hoverlaps := complaints_map_warn (fun pair : Nat × Nat =>
    s!"ranges {pair.1} and {pair.2} overlap, the earlier one wins")
    [("profile", .text path)] profile.overlappingRanges
  unfold reportRest
  split
  · rw [Logged.events_bind, complaints_append, events_forM_report, hoverlaps]
    rfl
  · rw [events_forM_report, hoverlaps]
    rfl

section

variable {path text : String} {profile : Profile} {after : Cursor}
  {warned : List (String × Option (String × FieldValue))}

/-- What comes after the range table cannot fail, and reports one warning for each overlap. -/
theorem read_of_gives
    (hgives : Reader.Gives (Reader.profile path) ⟨significantLines text, 0⟩ profile after warned) :
    (read path text).run.value = .ok profile ∧
      complaints (read path text).run.events = warned ++ profile.overlappingRanges.map fun pair =>
        about path s!"ranges {pair.1} and {pair.2} overlap, the earlier one wins" := by
  obtain ⟨hvalue, rfl⟩ := hgives
  have hrest : (liftM (reportRest path profile after.rest.length) :
      ExceptT Fault Logged Unit).run =
        ⟨.ok (), (reportRest path profile after.rest.length).events⟩ :=
    congrArg (Logged.mk _) (List.append_nil _)
  unfold read readWith
  simp only [ExceptT.run_bind, Logged.value_bind, Logged.events_bind, hvalue, hrest,
    complaints_append, complaints_reportRest]
  exact ⟨rfl, congrArg _ (List.append_nil _)⟩

/-- A fault of the profile reader is a fault of reading the text. -/
theorem read_of_fault {fault : Fault}
    (hfault : ((Reader.profile path).run ⟨significantLines text, 0⟩).run.value = .error fault) :
    (read path text).run.value = .error fault := by
  unfold read readWith
  simp only [ExceptT.run_bind, Logged.value_bind, hfault]
  rfl

/-- Where the profile reader gives nothing, reading the text has a fault. -/
theorem read_of_not_gives
    (hnot : ∀ profile after warned,
      ¬ Reader.Gives (Reader.profile path) ⟨significantLines text, 0⟩ profile after warned) :
    ∃ fault, (read path text).run.value = .error fault := by
  cases hvalue : ((Reader.profile path).run ⟨significantLines text, 0⟩).run.value with
  | error fault => exact ⟨fault, read_of_fault hvalue⟩
  | ok result => exact absurd ⟨hvalue, rfl⟩ (hnot result.1 result.2 _)

end

/-! ### Texts -/

section

variable {path text : String} {sheet : Sheet}

/-- The lines that the profile reader gives a profile for begin with a sheet. -/
theorem begins_of_gives {profile : Profile} {after : Cursor} {lines : List TextLine} {last : Nat}
    {warned : List (String × Option (String × FieldValue))}
    (hgives : Reader.Gives (Reader.profile path) ⟨lines, last⟩ profile after warned) :
    ∃ sheet : Sheet, sheet.Begins (lines.map TextLine.words) := by
  obtain ⟨sheet, ⟨written, ⟨hrest, -⟩, hwritten⟩, -⟩ := Reader.gives_profile_iff.mp hgives
  refine ⟨sheet, _, ⟨after.rest.map TextLine.words, ?_⟩, hwritten⟩
  rw [← List.map_append]
  exact congrArg _ hrest.symm

/-- For lines that begin with a sheet, the profile reader gives its profile and its complaints. -/
theorem gives_of_begins (path : String) {lines : List TextLine} (last : Nat)
    (hsheet : sheet.Begins (lines.map TextLine.words)) :
    ∃ after, Reader.Gives (Reader.profile path) ⟨lines, last⟩ sheet.profile after
      (sheet.lineComplaints.map (about path)) := by
  obtain ⟨written, ⟨rest, hrows⟩, hwritten⟩ := hsheet
  obtain ⟨lines, following, rfl, rfl, -⟩ := List.map_eq_append_iff.mp hrows.symm
  exact ⟨⟨following, _⟩, Reader.gives_profile_iff.mpr
    ⟨sheet, ⟨lines, ⟨rfl, rfl⟩, hwritten⟩, rfl, rfl⟩⟩

/-- A text has the profile of its lines, or an error made of their fault. -/
theorem value_ofText (path text : String) :
    (ofText path text).run.value = (read path text).run.value.mapError fun fault =>
      .malformedProfile path fault.line fault.cause.message := rfl

/-- A text has the events of its lines. -/
theorem events_ofText (path text : String) :
    (ofText path text).run.events = (read path text).run.events :=
  List.append_nil _

/-- The warnings about a written sheet are its complaints. -/
theorem complaints_ofText (path : String) (hsheet : sheet.Begins (rows text)) :
    (ofText path text).run.value = .ok sheet.profile ∧
      complaints (ofText path text).run.events = sheet.complaints.map (about path) := by
  rw [← map_words_significantLines] at hsheet
  obtain ⟨after, hgives⟩ := gives_of_begins path 0 hsheet
  obtain ⟨hvalue, hcomplaints⟩ := read_of_gives hgives
  rw [value_ofText, events_ofText, hvalue, hcomplaints, Sheet.complaints, List.map_append,
    List.map_map]
  exact ⟨rfl, rfl⟩

/-- A text that begins with a written sheet is the profile of the sheet. -/
theorem ofText_of_begins (path : String) (hsheet : sheet.Begins (rows text)) :
    (ofText path text).run.value = .ok sheet.profile ∧
      warnings (ofText path text).run.events =
        sheet.unknownNames + sheet.unknownAliases + sheet.profile.overlappingRanges.length := by
  obtain ⟨hvalue, hcomplaints⟩ := complaints_ofText path hsheet
  refine ⟨hvalue, ?_⟩
  rw [warnings_eq_length, hcomplaints, List.length_map, Sheet.complaints, List.length_append,
    List.length_map, sheet.length_lineComplaints]

/-- Any other text is malformed. -/
theorem ofText_of_not_begins (path : String) (hnot : ¬ ∃ sheet : Sheet, sheet.Begins (rows text)) :
    ∃ line reason, (ofText path text).run.value = .error (.malformedProfile path line reason) := by
  rw [← map_words_significantLines] at hnot
  obtain ⟨fault, hfault⟩ := @read_of_not_gives path text
    fun _ _ _ hgives => hnot (begins_of_gives hgives)
  rw [value_ofText, hfault]
  exact ⟨fault.line, fault.cause.message, rfl⟩

/-- Every range of an accepted text is proper, and its algorithm is registered. -/
theorem proper_of_begins (hsheet : sheet.Begins (rows text)) {range : SizeRange}
    (hmem : range ∈ sheet.profile.ranges) :
    range.start ≤ range.stop ∧
      (sheet.collective.choices.any fun choice => choice.id == range.algorithm) = true := by
  obtain ⟨written, -, hwritten⟩ := hsheet
  obtain ⟨line, hline, hstart, hstop, hregistered⟩ := Sheet.exists_of_mem_ranges hmem
  have hle := hwritten.start_le_stop hline
  rw [hstart, hstop] at hle
  exact ⟨hle, hregistered⟩

/-- The sheets of a text are all that it can be accepted for. -/
theorem exists_sheet_of_ofText {profile : Profile}
    (hprofile : (ofText path text).run.value = .ok profile) :
    ∃ sheet : Sheet, sheet.Begins (rows text) ∧ profile = sheet.profile := by
  by_cases hexists : ∃ sheet : Sheet, sheet.Begins (rows text)
  · obtain ⟨sheet, hsheet⟩ := hexists
    have hvalue := (ofText_of_begins path hsheet).1
    rw [hprofile] at hvalue
    exact ⟨sheet, hsheet, Except.ok.inj hvalue⟩
  · obtain ⟨line, reason, herror⟩ := ofText_of_not_begins path hexists
    rw [hprofile] at herror
    cases herror

/-- Every algorithm of the profile is registered. -/
def Registered (profile : Profile) : Prop :=
  ∀ range ∈ profile.ranges,
    (profile.collective.choices.any fun choice => choice.id == range.algorithm) = true

/-- A text cannot bring in an algorithm that is not registered. -/
theorem registered_of_ofText {profile : Profile}
    (hprofile : (ofText path text).run.value = .ok profile) : profile.Registered := by
  obtain ⟨sheet, hsheet, rfl⟩ := exists_sheet_of_ofText hprofile
  intro range hmem
  exact (proper_of_begins hsheet hmem).2

end

/-- **A text is accepted exactly when its rows begin with a written sheet, and every other text
is malformed.** The profile of an accepted text holds what the sheet says without its unknown
names and aliases. Each warning stands for one dropped line or one overlap. -/
theorem text_is_profile_iff_sheet (path text : String) :
    ((∃ profile, (ofText path text).run.value = .ok profile) ↔
      ∃ sheet : Sheet, sheet.Begins (rows text)) ∧
    ((¬ ∃ sheet : Sheet, sheet.Begins (rows text)) →
      ∃ line reason,
        (ofText path text).run.value = .error (.malformedProfile path line reason)) ∧
    ∀ sheet : Sheet, sheet.Begins (rows text) →
      (ofText path text).run.value = .ok sheet.profile ∧
      (∀ range ∈ sheet.profile.ranges, range.start ≤ range.stop ∧
        (sheet.collective.choices.any fun choice => choice.id == range.algorithm) = true) ∧
      warnings (ofText path text).run.events =
        sheet.unknownNames + sheet.unknownAliases + sheet.profile.overlappingRanges.length ∧
      sheet.profile.overlappingRanges.Nodup ∧
      ∀ first second, (first, second) ∈ sheet.profile.overlappingRanges ↔
        sheet.profile.OverlapAt first second := by
  refine ⟨⟨?_, ?_⟩, ofText_of_not_begins path, ?_⟩
  · rintro ⟨profile, hprofile⟩
    obtain ⟨sheet, hsheet, -⟩ := exists_sheet_of_ofText hprofile
    exact ⟨sheet, hsheet⟩
  · rintro ⟨sheet, hsheet⟩
    exact ⟨sheet.profile, (ofText_of_begins path hsheet).1⟩
  · intro sheet hsheet
    obtain ⟨hvalue, hwarnings⟩ := ofText_of_begins path hsheet
    have hproper : ∀ range ∈ sheet.profile.ranges, range.start ≤ range.stop ∧
        (sheet.collective.choices.any fun choice => choice.id == range.algorithm) = true :=
      fun range hmem => proper_of_begins hsheet hmem
    exact ⟨hvalue, hproper, hwarnings, nodup_overlappingRanges _,
      fun first second => mem_overlappingRanges fun range hmem => (hproper range hmem).1⟩

/-- In the first text the later line for the alias `a` names nothing, one range has an unknown
alias, and the other two overlap. The second text ends too early. -/
theorem text_is_profile_iff_sheet_bcast :
    (let outcome := (ofText "bcast.prf" <|
        "MPI_Bcast\n# ranks\n8 ranks\n2\na bcast_as_allgatherv\na other\n" ++
          "3\n0 9 a\n\n0 9 b\n9 20 a").run
     outcome.value =
        .ok { collective := .bcast, groupSize := 8, ranges := [⟨0, 9, 1⟩, ⟨9, 20, 1⟩] } ∧
      warnings outcome.events = 3) ∧
    ∃ line reason, (ofText "bcast.prf" "MPI_Bcast\n8\n").run.value =
      .error (.malformedProfile "bcast.prf" line reason) := by
  constructor
  · have hrows : rows ("MPI_Bcast\n# ranks\n8 ranks\n2\na bcast_as_allgatherv\na other\n" ++
        "3\n0 9 a\n\n0 9 b\n9 20 a") =
        ["MPI_Bcast"] :: ["8", "ranks"] :: ["2"] ::
          ([["a", "bcast_as_allgatherv"], ["a", "other"]] ++
            ["3"] :: [["0", "9", "a"], ["0", "9", "b"], ["9", "20", "a"]]) := by
      decide
    let sheet : Sheet :=
      { collective := .bcast, groupSize := 8
        aliases := [("a", "bcast_as_allgatherv"), ("a", "other")]
        ranges := [⟨0, 9, "a"⟩, ⟨0, 9, "b"⟩, ⟨9, 20, "a"⟩] }
    have hbegins := (text_is_profile_iff_sheet "bcast.prf" _).2.2 sheet
      ⟨_, List.prefix_rfl, _, _, _, _, _, _, hrows, by decide, ⟨⟨"8", by decide⟩, by decide⟩,
        ⟨"2", by decide⟩, .cons ⟨[], rfl⟩ (.cons ⟨[], rfl⟩ .nil),
        ⟨⟨"3", by decide⟩, by decide⟩, .cons ⟨"0", "9", [], rfl, by decide⟩
          (.cons ⟨"0", "9", [], rfl, by decide⟩ (.cons ⟨"9", "20", [], rfl, by decide⟩ .nil))⟩
    exact ⟨hbegins.1, hbegins.2.2.1⟩
  · refine (text_is_profile_iff_sheet "bcast.prf" _).2.1 ?_
    rintro ⟨sheet, hsheet⟩
    have hrows : rows "MPI_Bcast\n8\n" = [["MPI_Bcast"], ["8"]] := by decide
    have hlength := hsheet.five_le_length
    rw [hrows] at hlength
    simp at hlength

end CollectiveTuner.Profile
