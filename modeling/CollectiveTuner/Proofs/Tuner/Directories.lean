import CollectiveTuner.Proofs.Profile.Format
import CollectiveTuner.Proofs.Tuner.Selecting

/-!
# Profile directories

The profile files of a directory are read one after another until one of them cannot be read.
What becomes of a directory is therefore what becomes of its files.
-/

namespace CollectiveTuner.Profile

variable {files : Files} {path : String}

/-! ### Values -/

/-- A file has the profile of its text. -/
theorem value_ofFile (files : Files) (path : String) :
    (ofFile files path).run.value =
      match files.readText path with
      | .ok text => (ofText path text).run.value
      | .error cause => .error (.unreadableFile cause) := by
  unfold ofFile ofFileWith
  cases files.readText path <;> rfl

/-- The values of actions in sequence are those of the actions one by one. -/
theorem value_mapM {α β : Type} (names : List α) (load : α → ExceptT Error Logged β) :
    (names.mapM load).run.value = names.mapM fun name => (load name).run.value := by
  induction names with
  | nil => rfl
  | cons name rest ih =>
    rw [List.mapM_cons, List.mapM_cons, Tuner.value_run_bind]
    congr 1
    funext loaded
    rw [Tuner.value_run_bind, ih]
    rfl

/-- A directory has the profiles of its files. -/
theorem value_ofDirectory (files : Files) (path : String) :
    (ofDirectory files path).run.value =
      match files.list path with
      | .error cause => .error (.profileDirectory path cause)
      | .ok entries => (fileNames entries).mapM fun name =>
          (ofFile files (Files.join path name)).run.value := by
  unfold ofDirectory ofDirectoryWith
  cases files.list path with
  | error cause => rfl
  | ok entries =>
    dsimp only
    rw [value_mapM]
    rfl

/-- A single file with the extension of profiles is the only one. -/
theorem fileNames_singleton {name : String} (hname : Files.extension? name = some fileExtension) :
    fileNames [⟨name, true⟩] = [name] := by
  simp [fileNames, hname]

/-- A directory with one profile file is read as that file is. -/
theorem value_ofDirectory_singleton {name : String} (hlist : files.list path = .ok [⟨name, true⟩])
    (hname : Files.extension? name = some fileExtension) :
    (ofDirectory files path).run.value =
      (ofFile files (Files.join path name)).run.value.map fun profile => [profile] := by
  rw [value_ofDirectory, hlist]
  dsimp only
  rw [fileNames_singleton hname, List.mapM_cons, List.mapM_nil]
  cases (ofFile files (Files.join path name)).run.value <;> rfl

/-! ### What is read -/

/-- A list of checks passes when all of its entries do, each with its own value. -/
theorem mapM_eq_ok_iff {α β ε : Type} {entries : List α} {check : α → Except ε β}
    {values : List β} : entries.mapM check = .ok values ↔
      List.Forall₂ (fun entry value => check entry = .ok value) entries values := by
  induction entries generalizing values with
  | nil =>
    rw [List.forall₂_nil_left_iff]
    exact ⟨fun hvalues => (Except.ok.inj hvalues).symm, fun hvalues => hvalues ▸ rfl⟩
  | cons first rest ih =>
    rw [List.mapM_cons]
    constructor
    · intro hvalues
      cases hfirst : check first with
      | error error =>
        rw [hfirst] at hvalues
        cases hvalues
      | ok head =>
        cases hrest : rest.mapM check with
        | error error =>
          rw [hfirst, hrest] at hvalues
          cases hvalues
        | ok tail =>
          rw [hfirst, hrest] at hvalues
          obtain rfl := Except.ok.inj hvalues
          exact .cons hfirst (ih.mp hrest)
    · rintro (_ | ⟨hfirst, hrest⟩)
      rw [hfirst, ih.mpr hrest]
      rfl

/-- What a list of checks yields comes from its entries. -/
theorem exists_of_mem_of_mapM {α β ε : Type} {entries : List α} {check : α → Except ε β}
    {values : List β} (hvalues : entries.mapM check = .ok values) {value : β}
    (hmem : value ∈ values) : ∃ entry ∈ entries, check entry = .ok value := by
  induction mapM_eq_ok_iff.mp hvalues with
  | nil => cases hmem
  | cons hfirst hrest ih =>
    rcases List.mem_cons.mp hmem with rfl | htail
    · exact ⟨_, List.mem_cons_self, hfirst⟩
    · obtain ⟨entry, hentry, hvalue⟩ := ih (mapM_eq_ok_iff.mpr hrest) htail
      exact ⟨entry, List.mem_cons_of_mem _ hentry, hvalue⟩

/-- A profile from a file has only registered algorithms. -/
theorem registered_of_ofFile {profile : Profile}
    (hprofile : (ofFile files path).run.value = .ok profile) : profile.Registered := by
  rw [value_ofFile] at hprofile
  cases htext : files.readText path with
  | error cause =>
    rw [htext] at hprofile
    cases hprofile
  | ok text =>
    rw [htext] at hprofile
    exact registered_of_ofText hprofile

/-- Every profile from a directory has only registered algorithms. -/
theorem registered_of_ofDirectory {profiles : List Profile}
    (hprofiles : (ofDirectory files path).run.value = .ok profiles) {profile : Profile}
    (hmem : profile ∈ profiles) : profile.Registered := by
  rw [value_ofDirectory] at hprofiles
  cases hlist : files.list path with
  | error cause =>
    rw [hlist] at hprofiles
    cases hprofiles
  | ok entries =>
    rw [hlist] at hprofiles
    obtain ⟨name, -, hname⟩ := exists_of_mem_of_mapM hprofiles hmem
    exact registered_of_ofFile hname

/-! ### What cannot be read -/

/-- A list of checks fails with the error of the first entry that does not pass. -/
theorem exists_first_of_mapM_eq_error {α β ε : Type} {entries : List α} {check : α → Except ε β}
    {error : ε} (herror : entries.mapM check = .error error) :
    ∃ earlier entry later, entries = earlier ++ entry :: later ∧
      (∀ other ∈ earlier, ∃ value, check other = .ok value) ∧ check entry = .error error := by
  induction entries with
  | nil => cases herror
  | cons first rest ih =>
    rw [List.mapM_cons] at herror
    cases hfirst : check first with
    | error error' =>
      rw [hfirst] at herror
      obtain rfl := Except.error.inj herror
      exact ⟨[], first, rest, rfl, by simp, hfirst⟩
    | ok head =>
      cases hrest : rest.mapM check with
      | error error' =>
        rw [hfirst, hrest] at herror
        obtain rfl := Except.error.inj herror
        obtain ⟨earlier, entry, later, rfl, hearlier, hentry⟩ := ih hrest
        exact ⟨first :: earlier, entry, later, rfl,
          List.forall_mem_cons.mpr ⟨⟨head, hfirst⟩, hearlier⟩, hentry⟩
      | ok tail =>
        rw [hfirst, hrest] at herror
        cases herror

/-- Every profile file of the directory holds a text. -/
def HoldsTexts (files : Files) (path : String) : Prop :=
  ∀ entries, files.list path = .ok entries → ∀ name ∈ fileNames entries,
    ∃ text, files.readText (Files.join path name) = .ok text

/-- The directory cannot be listed, or the text of a profile file is not a profile. -/
def Unloadable (files : Files) (path : String) : Prop :=
  (∃ cause, files.list path = .error cause) ∨
    ∃ entries, files.list path = .ok entries ∧ ∃ name ∈ fileNames entries,
      ∃ text, files.readText (Files.join path name) = .ok text ∧
        ¬ ∃ sheet : Sheet, sheet.Begins (rows text)

/-- A text with an error begins with no sheet, and the error is fatal. -/
theorem exists_of_ofText_eq_error {text : String} {error : Error}
    (herror : (ofText path text).run.value = .error error) :
    error.isFatal = true ∧ ¬ ∃ sheet : Sheet, sheet.Begins (rows text) := by
  constructor
  · rw [value_ofText] at herror
    cases hread : (read path text).run.value with
    | ok profile =>
      rw [hread] at herror
      cases herror
    | error fault =>
      rw [hread] at herror
      obtain rfl := Except.error.inj herror
      rfl
  · rintro ⟨sheet, hsheet⟩
    rw [(ofText_of_begins path hsheet).1] at herror
    cases herror

/-- Where all profile files hold texts, loading fails with a fatal error or not at all. -/
theorem exists_of_ofDirectory_eq_error (htexts : HoldsTexts files path) {error : Error}
    (herror : (ofDirectory files path).run.value = .error error) :
    error.isFatal = true ∧ Unloadable files path := by
  rw [value_ofDirectory] at herror
  cases hlist : files.list path with
  | error cause =>
    rw [hlist] at herror
    obtain rfl := Except.error.inj herror
    exact ⟨rfl, .inl ⟨cause, hlist⟩⟩
  | ok entries =>
    rw [hlist] at herror
    obtain ⟨earlier, name, later, hnames, -, hfile⟩ := exists_first_of_mapM_eq_error herror
    have hname : name ∈ fileNames entries := by
      rw [hnames]
      exact List.mem_append_right _ List.mem_cons_self
    obtain ⟨text, htext⟩ := htexts entries hlist name hname
    rw [value_ofFile, htext] at hfile
    obtain ⟨hfatal, hnot⟩ := exists_of_ofText_eq_error hfile
    exact ⟨hfatal, .inr ⟨entries, hlist, name, hname, text, htext, hnot⟩⟩

end CollectiveTuner.Profile
