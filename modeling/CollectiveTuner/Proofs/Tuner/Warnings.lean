import CollectiveTuner.Proofs.Tuner.Choices
import CollectiveTuner.Proofs.Tuner.Precedence

/-!
# What a run warns about

Starting a tuner warns about each module selection that cannot be followed and about each line of
a profile that is dropped. A tuned context drops the module selections themselves, silently. The
calls of the run warn about buffers that are too short and about nothing else: that a profile was
measured with another group size is traced only.
-/

namespace CollectiveTuner

open Reduction (firstOperand)

/-! ### Events of computations that can fail -/

/-- When the first of two computations has a value, the events of the second come after its own. -/
theorem events_run_bind {α β : Type} {first : ExceptT Error Logged α}
    {next : α → ExceptT Error Logged β} {value : α} (hfirst : first.run.value = .ok value) :
    (first >>= next).run.events = first.run.events ++ (next value).run.events := by
  rw [ExceptT.run_bind, Logged.events_bind, hfirst]

/-- Taking over logged events as a fallible action keeps them. -/
theorem events_run_lift {α : Type} (first : Logged α) :
    (liftM first : ExceptT Error Logged α).run.events = first.events :=
  List.append_nil _

/-- Converting the value of an action keeps its events. -/
theorem events_run_bind_pure {α β : Type} (first : ExceptT Error Logged α) (convert : α → β) :
    (first >>= fun value => pure (convert value)).run.events = first.run.events := by
  rw [ExceptT.run_bind, Logged.events_bind]
  cases first.run.value <;> exact List.append_nil _

/-- The events of a logged action come before those of what follows. -/
theorem events_run_lift_bind {α β : Type} (first : Logged α) (next : α → ExceptT Error Logged β) :
    (liftM first >>= next : ExceptT Error Logged β).run.events =
      first.events ++ (next first.value).run.events := by
  have hfirst : (liftM first : ExceptT Error Logged α).run.value = .ok first.value := rfl
  rw [events_run_bind hfirst, events_run_lift]

/-- Nothing is added to the events of a computation that has a value. -/
theorem Tuner.events_failing {α : Type} {me : Member} {activity : String}
    {result : ExceptT Error Logged α} {value : α} (hresult : result.run.value = .ok value) :
    (failing me activity result).run.events = result.run.events := by
  have hlift : (ExceptT.lift result.run : ExceptT Error Logged _).run.value =
      .ok (.ok value) := congrArg _ hresult
  unfold failing
  rw [events_run_bind hlift]
  exact (List.append_nil _).trans (events_run_lift result.run)

/-! ### Module selections -/

/-- Parameters for a module that cannot be followed, with what is reported of them. -/
inductive Misselected (name params : String) : Event → Prop
  | unknownModule (hname : ∀ op : Collective, op.shortName ≠ name) :
      Misselected name params
        ⟨.warn, "no collective module with this prefix, ignoring", [("module", .text name)]⟩
  | noAlgorithm {op : Collective} (hname : op.shortName = name)
      (hnamed : ModuleParams.named params = none) :
      Misselected name params
        ⟨.warn, "no algorithm named in module parameters, using default",
          [("module", .text name), ("params", .text params)]⟩
  | unknownAlgorithm {op : Collective} {algorithm : String} (hname : op.shortName = name)
      (hnamed : ModuleParams.named params = some algorithm)
      (hunknown : ∀ known : Algorithm op, known.name ≠ algorithm) :
      Misselected name params
        ⟨.warn, s!"{(Error.invalidAlgorithmName algorithm).message}, using default",
          [("module", .text name)]⟩

/-- Different operations have different short names. -/
theorem Collective.shortName_inj {op other : Collective} :
    op.shortName = other.shortName ↔ op = other := by
  rw [← ofShortName?_eq_some_iff, ofShortName?_eq_some_iff.mpr rfl, Option.some_inj, eq_comm]

section

variable {name params : String} {event : Event}

/-- Parameters for an existing module cannot be followed when they name no algorithm of it. -/
theorem misselected_shortName_iff {op : Collective} :
    Misselected op.shortName params event ↔
      (ModuleParams.named params = none ∧
        event = ⟨.warn, "no algorithm named in module parameters, using default",
          [("module", .text op.shortName), ("params", .text params)]⟩) ∨
      ∃ algorithm, ModuleParams.named params = some algorithm ∧
        (∀ known : Algorithm op, known.name ≠ algorithm) ∧
        event = ⟨.warn, s!"{(Error.invalidAlgorithmName algorithm).message}, using default",
          [("module", .text op.shortName)]⟩ := by
  constructor
  · generalize hshort : op.shortName = short
    intro hmisselected
    cases hmisselected with
    | unknownModule hname => exact absurd hshort (hname op)
    | noAlgorithm _ hnamed => exact .inl ⟨hnamed, rfl⟩
    | unknownAlgorithm hname hnamed hunknown =>
      obtain rfl := Collective.shortName_inj.mp (hname.trans hshort.symm)
      exact .inr ⟨_, hnamed, hunknown, rfl⟩
  · rintro (⟨hnamed, rfl⟩ | ⟨algorithm, hnamed, hunknown, rfl⟩)
    · exact .noAlgorithm rfl hnamed
    · exact .unknownAlgorithm rfl hnamed hunknown

/-- Reading the parameters of a module reports when they cannot be followed, and nothing else. -/
theorem Module.mem_events_parse_iff {catalog : Catalog} {op : Collective} :
    event ∈ ((catalog.module op).parse params).events ↔
      Misselected op.shortName params event := by
  rw [misselected_shortName_iff]
  unfold Module.parse
  rw [ModuleParams.algorithmName?_eq_named]
  cases hnamed : ModuleParams.named params with
  | none => exact List.mem_singleton.trans (by simp [Catalog.module])
  | some algorithm =>
    dsimp only [Catalog.module]
    cases hid : Choice.idOf op.choices algorithm with
    | ok id =>
      have hknown : ¬ ∀ known : Algorithm op, known.name ≠ algorithm := by
        intro hunknown
        rw [Choice.idOf_eq_error_iff.mpr ⟨rfl, hunknown⟩] at hid
        cases hid
      simp [hknown]
    | error error =>
      obtain ⟨rfl, hunknown⟩ := Choice.idOf_eq_error_iff.mp hid
      exact List.mem_singleton.trans (by simp [hunknown])

namespace SelectionContext

/-- A selection warns when it cannot be followed, whatever has been selected before it. -/
theorem mem_events_selectStatic_iff (hwarn : event.level = .warn) (catalog : Catalog) :
    event ∈ (selectStatic catalog name params).run.events ↔ Misselected name params event := by
  unfold selectStatic
  cases hop : Collective.ofShortName? name with
  | none =>
    have hname := Collective.ofShortName?_eq_none_iff.mp hop
    refine List.mem_singleton.trans ⟨?_, ?_⟩
    · rintro rfl
      exact .unknownModule hname
    · intro hmisselected
      cases hmisselected with
      | unknownModule => rfl
      | noAlgorithm hnamed => exact absurd hnamed (hname _)
      | unknownAlgorithm hnamed => exact absurd hnamed (hname _)
  | some op =>
    obtain rfl := Collective.ofShortName?_eq_some_iff.mp hop
    have hparse : (liftM ((catalog.module op).parse params) :
        ExceptT Error Logged AlgorithmId).run.value =
          .ok ((catalog.module op).parse params).value := rfl
    rw [← Module.mem_events_parse_iff]
    dsimp only
    rw [events_run_bind hparse, events_run_lift, Catalog.activate_parse]
    refine List.mem_append.trans (or_iff_left ?_)
    intro hmem
    rw [List.mem_singleton.mp hmem] at hwarn
    cases hwarn

/-- Each selection is looked at, since none of them stops the others. -/
theorem mem_events_prepareStatic_iff (hwarn : event.level = .warn)
    (selections : Dictionary String String) (catalog : Catalog) :
    event ∈ (prepareStatic selections catalog).run.events ↔
      ∃ name params, selections.get? name = some params ∧ Misselected name params event := by
  simp only [← Dictionary.mem_entries_iff]
  unfold prepareStatic
  generalize selections.entries = entries
  induction entries generalizing catalog with
  | nil => simp
  | cons entry rest ih =>
    obtain ⟨name, params⟩ := entry
    rw [List.foldlM_cons, events_run_bind (value_selectStatic catalog name params),
      List.mem_append, mem_events_selectStatic_iff hwarn, ih]
    simp only [List.mem_cons, Prod.mk.injEq]
    constructor
    · rintro (hfirst | ⟨name', params', hrest, hmisselected⟩)
      · exact ⟨name, params, .inl ⟨rfl, rfl⟩, hfirst⟩
      · exact ⟨name', params', .inr hrest, hmisselected⟩
    · rintro ⟨name', params', ⟨rfl, rfl⟩ | hrest, hmisselected⟩
      · exact .inl hmisselected
      · exact .inr ⟨name', params', hrest, hmisselected⟩

end SelectionContext

end

/-! ### Profile directories -/

namespace Profile

variable {files : Files} {path : String}

/-- The text of a file begins with the sheet. -/
def IsSheetOf (files : Files) (path : String) (sheet : Sheet) : Prop :=
  ∃ text, files.readText path = .ok text ∧ sheet.Begins (rows text)

/-- The paths of the profile files of a directory, in the order of their names, with their
sheets. -/
def HoldsSheets (files : Files) (path : String) (written : List (String × Sheet)) : Prop :=
  ∃ entries, files.list path = .ok entries ∧
    List.Forall₂ (fun name (file : String × Sheet) =>
      file.1 = Files.join path name ∧ IsSheetOf files file.1 file.2) (fileNames entries) written

/-- Loading a file yields the profile of its sheet and warns of nothing else. -/
theorem ofFile_of_isSheetOf {sheet : Sheet} (hsheet : IsSheetOf files path sheet) :
    (ofFile files path).run.value = .ok sheet.profile ∧
      complaints (ofFile files path).run.events = sheet.complaints.map (about path) := by
  obtain ⟨text, htext, hbegins⟩ := hsheet
  unfold ofFile ofFileWith
  rw [htext]
  exact complaints_ofText path hbegins

/-- A file with a profile has the sheet of one. -/
theorem exists_isSheetOf {profile : Profile}
    (hprofile : (ofFile files path).run.value = .ok profile) :
    ∃ sheet, IsSheetOf files path sheet := by
  rw [value_ofFile] at hprofile
  cases htext : files.readText path with
  | error cause =>
    rw [htext] at hprofile
    cases hprofile
  | ok text =>
    rw [htext] at hprofile
    obtain ⟨sheet, hsheet, -⟩ := exists_sheet_of_ofText hprofile
    exact ⟨sheet, text, htext, hsheet⟩

/-- A directory that can be loaded holds sheets. -/
theorem exists_holdsSheets {profiles : List Profile}
    (hprofiles : (ofDirectory files path).run.value = .ok profiles) :
    ∃ written, HoldsSheets files path written := by
  rw [value_ofDirectory] at hprofiles
  cases hlist : files.list path with
  | error cause =>
    rw [hlist] at hprofiles
    cases hprofiles
  | ok entries =>
    rw [hlist] at hprofiles
    have hloaded := mapM_eq_ok_iff.mp hprofiles
    generalize hnames : fileNames entries = names at hloaded
    suffices hwritten : ∃ written : List (String × Sheet), List.Forall₂ (fun name file =>
        file.1 = Files.join path name ∧ IsSheetOf files file.1 file.2)
        names written from
      hwritten.imp fun _ hwritten => ⟨entries, hlist, hnames ▸ hwritten⟩
    clear hprofiles hnames
    induction hloaded with
    | nil => exact ⟨[], .nil⟩
    | @cons name profile names others hfile hothers ih =>
      obtain ⟨sheet, hsheet⟩ := exists_isSheetOf hfile
      obtain ⟨written, hwritten⟩ := ih
      exact ⟨(Files.join path name, sheet) :: written, .cons ⟨rfl, hsheet⟩ hwritten⟩

/-- What a list of steps yields and warns of, when each of them has a value. -/
theorem complaints_mapM {α β γ : Type} {load : α → ExceptT Error Logged β} {value : γ → β}
    {warned : γ → List (String × Option (String × FieldValue))} {names : List α} {items : List γ}
    (hload : List.Forall₂ (fun name item => (load name).run.value = .ok (value item) ∧
      complaints (load name).run.events = warned item) names items) :
    (names.mapM load).run.value = .ok (items.map value) ∧
      complaints (names.mapM load).run.events = items.flatMap warned := by
  induction hload with
  | nil => exact ⟨rfl, rfl⟩
  | cons hfirst _ ih =>
    obtain ⟨hvalue, hwarned⟩ := hfirst
    obtain ⟨hvalues, hrest⟩ := ih
    rw [List.mapM_cons]
    simp only [ExceptT.run_bind, Logged.value_bind, Logged.events_bind, complaints_append, hvalue,
      hvalues, hwarned, hrest]
    exact ⟨rfl, congrArg _ (List.append_nil _)⟩

/-- Loading a directory yields the profiles of its sheets and warns of nothing else. -/
theorem ofDirectory_of_holdsSheets {written : List (String × Sheet)}
    (hwritten : HoldsSheets files path written) :
    (ofDirectory files path).run.value = .ok (written.map fun file => file.2.profile) ∧
      complaints (ofDirectory files path).run.events =
        written.flatMap fun file => file.2.complaints.map (about file.1) := by
  obtain ⟨entries, hlist, hwritten⟩ := hwritten
  unfold ofDirectory ofDirectoryWith
  rw [hlist]
  refine complaints_mapM (hwritten.imp ?_)
  rintro name file ⟨hpath, hsheet⟩
  rw [hpath] at hsheet ⊢
  exact ofFile_of_isSheetOf hsheet

end Profile

namespace SelectionContext

/-- What is reported when an operation already has a profile. -/
def superseded (op : Collective) : Event :=
  ⟨.warn, "several profiles for one operation, keeping the last", [("op", .text op.name)]⟩

/-- A profile takes the place of an earlier one with a report. -/
theorem events_addProfile {profile : Profile} (hregistered : profile.Registered)
    (table : ProfileTable) : (addProfile table profile).events =
      if (table.get? profile.collective).isSome then [superseded profile.collective] else [] := by
  unfold addProfile
  dsimp only
  rw [find?_unregistered hregistered]
  dsimp only
  split <;> rfl

/-- All profiles for an operation but one are reported, and that one too if the table has a
profile already. Nothing else is. -/
theorem exists_events_foldlM_addProfile {profiles : List Profile}
    (hregistered : ∀ profile ∈ profiles, profile.Registered) (table : ProfileTable) :
    ∃ replaced : List Collective,
      (profiles.foldlM addProfile table : Logged ProfileTable).events = replaced.map superseded ∧
      ∀ op, replaced.count op = profiles.countP (fun profile => profile.collective = op) -
        if (table.get? op).isSome then 0 else 1 := by
  induction profiles generalizing table with
  | nil => exact ⟨[], rfl, fun op => by simp⟩
  | cons profile rest ih =>
    have hfirst := hregistered profile List.mem_cons_self
    obtain ⟨replaced, hevents, hcount⟩ := ih
      (fun other hother => hregistered other (List.mem_cons_of_mem _ hother)) (table.insert profile)
    refine ⟨(if (table.get? profile.collective).isSome then [profile.collective] else []) ++
      replaced, ?_, fun op => ?_⟩
    · rw [List.foldlM_cons, Logged.events_bind, value_addProfile hfirst, events_addProfile hfirst,
        hevents, List.map_append]
      congr 1
      split <;> rfl
    · rw [List.count_append, List.countP_cons, hcount, ProfileTable.get?_insert]
      by_cases hop : profile.collective = op
      · subst hop
        rw [if_pos rfl, decide_eq_true rfl, if_pos rfl]
        cases (table.get? profile.collective).isSome with
        | true => simp [Nat.add_comm]
        | false => simp
      · rw [if_neg (Ne.symm hop), decide_eq_false hop, if_neg Bool.false_ne_true]
        split <;> simp [hop]

/-- Loading the profiles of a directory warns of what is dropped from its sheets and of the
profiles that are not kept. -/
theorem exists_complaints_prepareTuned {files : Files} {path : String}
    {written : List (String × Profile.Sheet)} (hwritten : Profile.HoldsSheets files path written) :
    ∃ replaced : List Collective,
      (∀ op, replaced.count op = written.countP (fun file => file.2.collective = op) - 1) ∧
      Profile.complaints (prepareTuned files (some path) ProfileTable.empty).run.events =
        (written.flatMap fun file => file.2.complaints.map (Profile.about file.1)) ++
          Profile.complaints (replaced.map superseded) := by
  obtain ⟨hvalue, hdropped⟩ := Profile.ofDirectory_of_holdsSheets hwritten
  obtain ⟨replaced, hreplaced, hcount⟩ := exists_events_foldlM_addProfile
    (fun _ hmem => Profile.registered_of_ofDirectory hvalue hmem) ProfileTable.empty
  refine ⟨replaced, fun op => ?_, ?_⟩
  · rw [hcount, List.countP_map]
    rfl
  · unfold prepareTuned
    simp only [ExceptT.run_bind, Logged.events_bind, hvalue, events_run_lift, hreplaced,
      Profile.complaints_append, hdropped]
    exact congrArg _ (List.append_nil _)

end SelectionContext

namespace Tuner

variable {arithmetic : FloatArithmetic} {host : Host} {configuration : Configuration}
  {me : Member} {started tuner : Tuner}

/-! ### Starting -/

/-- What is reported when the sizes of the scratch pools are read. -/
def sizeEvents (configuration : Configuration) : List Event :=
  configuration.messageBytes.events ++ configuration.integerBytes.events

/-- A tuner that starts reports on its sizes, on its context and on its sizes again. -/
theorem events_start (hstart : (start host me configuration).run.value = .ok started) :
    ∃ ready : Event, ready.level = .info ∧ (start host me configuration).run.events =
      sizeEvents configuration ++ (((SelectionContext.ofConfiguration configuration).prepare host
        Catalog.default).run.events ++ (sizeEvents configuration ++ [ready])) := by
  obtain ⟨arena, context, catalog, harena, hprepared, -⟩ := exists_of_start hstart
  have harena' : (liftM (Scratch.Arena.allocate host.refusedBytes configuration.messageBytes.value
      configuration.integerBytes.value) : ExceptT Error Logged Scratch.Arena).run.value =
        .ok arena := by
    rw [harena]
    rfl
  unfold start
  rw [events_run_lift_bind, events_run_lift_bind,
    events_run_bind ((value_run_failing _ _ _).trans harena'), events_failing harena', harena,
    events_run_bind ((value_run_failing _ _ _).trans hprepared), events_failing hprepared]
  dsimp only
  rw [events_run_lift_bind, events_run_lift_bind, events_run_bind_pure]
  refine ⟨?ready, ?level, ?events⟩
  case events =>
    rw [events_run_lift, sizeEvents, List.append_assoc, List.append_assoc]
    rfl
  case level => rfl

/-- In a static context a start warns of the selections that cannot be followed. -/
theorem mem_events_start_iff (hstart : (start host me configuration).run.value = .ok started)
    (hstatic : configuration.context = .static) {event : Event} (hwarn : event.level = .warn) :
    event ∈ (start host me configuration).run.events ↔ event ∈ sizeEvents configuration ∨
      ∃ name params, configuration.modules.get? name = some params ∧
        Misselected name params event := by
  obtain ⟨ready, hready, hevents⟩ := events_start hstart
  have hne : event ≠ ready := by
    rintro rfl
    rw [hready] at hwarn
    cases hwarn
  have hprepare : ((SelectionContext.ofConfiguration configuration).prepare host
      Catalog.default).run.events =
        (SelectionContext.prepareStatic configuration.modules Catalog.default).run.events := by
    unfold SelectionContext.ofConfiguration
    rw [hstatic]
    exact events_run_bind_pure _ _
  rw [← SelectionContext.mem_events_prepareStatic_iff hwarn _ Catalog.default, hevents, hprepare]
  simp only [List.mem_append, List.mem_singleton, hne, or_false]
  tauto

/-- The directory that is loaded is the profile path of a tuned context. -/
theorem mem_directory?_iff {path : String} : path ∈ directory? configuration ↔
    configuration.context = .tuned ∧ configuration.profilePath = some path := by
  unfold directory?
  cases configuration.context <;> simp

/-- In a tuned context a start warns of what preparing the profile table warns of. -/
theorem complaints_start (hstart : (start host me configuration).run.value = .ok started)
    (htuned : configuration.context = .tuned) :
    Profile.complaints (start host me configuration).run.events =
      Profile.complaints (sizeEvents configuration) ++
        (Profile.complaints (SelectionContext.prepareTuned host configuration.profilePath
            ProfileTable.empty).run.events ++
          Profile.complaints (sizeEvents configuration)) := by
  obtain ⟨ready, hready, hevents⟩ := events_start hstart
  have hquiet : Profile.complaints [ready] = [] := by
    rw [Profile.complaints, List.filter_cons_of_neg (by simp [hready])]
    rfl
  have hprepare : ((SelectionContext.ofConfiguration configuration).prepare host
      Catalog.default).run.events =
        (SelectionContext.prepareTuned host configuration.profilePath
          ProfileTable.empty).run.events := by
    unfold SelectionContext.ofConfiguration
    rw [htuned]
    exact events_run_bind_pure _ _
  rw [hevents, hprepare, Profile.complaints_append, Profile.complaints_append,
    Profile.complaints_append, hquiet, List.append_nil]

/-- A tuned context is prepared without the module selections, so a start reports the same
whatever they are. -/
theorem events_start_of_modules (htuned : configuration.context = .tuned)
    (modules : Dictionary String String) :
    (start host me { configuration with modules }).run.events =
      (start host me configuration).run.events := by
  have hcontext : SelectionContext.ofConfiguration { configuration with modules } =
      SelectionContext.ofConfiguration configuration := by
    unfold SelectionContext.ofConfiguration
    dsimp only
    rw [htuned]
  have hmap : start host me { configuration with modules } =
      (fun tuner => { tuner with configuration := { configuration with modules } }) <$>
        start host me configuration := by
    unfold start
    rw [hcontext]
    simp only [map_bind, map_pure]
    rfl
  rw [hmap, ← bind_pure_comp, events_run_bind_pure]

/-- A tuner that starts has loaded the profiles of its directory. -/
theorem exists_ofDirectory_of_start
    (hstart : (start host me configuration).run.value = .ok started) {path : String}
    (hpath : path ∈ directory? configuration) :
    ∃ profiles, (Profile.ofDirectory host path).run.value = .ok profiles := by
  obtain ⟨_, _, _, -, hprepared, -⟩ := exists_of_start hstart
  cases hprofiles : (Profile.ofDirectory host path).run.value with
  | ok profiles => exact ⟨profiles, rfl⟩
  | error error =>
    have hunprepared : (SelectionContext.prepareTuned host (directory? configuration)
        ProfileTable.empty).run.value = .error error := by
      rw [Option.mem_def.mp hpath, SelectionContext.value_prepareTuned, hprofiles]
      rfl
    have herror := prepare_eq_error_iff.mpr hunprepared
    rw [hprepared] at herror
    cases herror

/-! ### Calls -/

section Calls

variable {request : Request} {input output : Bytes}

/-- Settling on an algorithm warns about nothing. -/
theorem complaints_settle (op : Collective) (id : AlgorithmId)
    (attempt : Option (Except Error Unit)) :
    Profile.complaints (settle op id attempt).events = [] := by
  rcases attempt with _ | (_ | _) <;> rfl

/-- The events begin like this, and no warning comes after that. -/
def Outcome.WarnsOnlyIn (early : List Event) (outcome : Outcome) : Prop :=
  ∃ later, outcome.events = early ++ later ∧ Profile.complaints later = []

/-- Up to the conclusion, performing a request warns about nothing. -/
theorem always_settling (arithmetic : FloatArithmetic) (tuner : Tuner) (request : Request)
    (input output : Bytes) : (tuner.settling arithmetic request input output).Always
      fun result => Profile.complaints result.1.events = [] := by
  unfold settling
  dsimp only
  split
  · exact .bind (Script.always_true _) fun result _ => complaints_settle _ _ _
  · exact complaints_settle _ _ _

/-- Finishing a call warns about nothing but what was warned about before. -/
theorem always_warnsOnlyIn_finishing (tuner : Tuner) (request : Request) (input : Bytes)
    (early : List Event) {settled : Logged AlgorithmId}
    (hsettled : Profile.complaints settled.events = []) (workspace : Workspace) :
    (tuner.finishing request input early settled workspace).Always (Outcome.WarnsOnlyIn early) := by
  unfold finishing
  dsimp only
  split
  · exact fun reply => ⟨settled.events, rfl, hsettled⟩
  · exact ⟨settled.events, rfl, hsettled⟩

/-- A call reports on its buffers, then on the selection, and warns of nothing later. -/
theorem always_warnsOnlyIn (hroot : ∀ root ∈ request.root?, root < tuner.me.size) :
    (tuner.perform arithmetic request input output).Always
      (Outcome.WarnsOnlyIn ((measure tuner.me request input output).events ++
        ((tuner.select request.collective request.messageBytes).events ++
          (resolve request.collective (tuner.selected request)).events))) := by
  rw [perform_of_root hroot, dispatch_eq_settling]
  refine .bind ((always_settling _ _ _ _ _).bind fun result hresult =>
    always_warnsOnlyIn_finishing _ _ _ _ hresult _) ?_
  rintro outcome ⟨later, hevents, hlater⟩
  refine ⟨later, ?_, hlater⟩
  rw [List.append_assoc, ← hevents]
  rfl

/-- A profile for another group size is passed over, and what is active is selected instead. -/
theorem Faithful.select_of_groupSize (hfaithful : Faithful host configuration me tuner)
    {op : Collective} {size : Nat} {profile : Profile}
    (hprofile : configured? host configuration op = some profile)
    (hgroup : profile.groupSize ≠ me.size) (hsize : size ≠ 0) :
    tuner.select op size = ⟨tuner.catalog.active op, [⟨.trace,
      s!"{(Error.groupSizeMismatch op profile.groupSize me.size).message}, using stored selection",
      [("op", .text op.name), ("msg_size", .number size),
        ("alg", .number (tuner.catalog.active op))]⟩]⟩ := by
  have hcontext := hfaithful.profile op
  rw [hprofile] at hcontext
  have hmismatch : tuner.context.algorithmFor op size me.size =
      .error (.groupSizeMismatch op profile.groupSize me.size) := by
    cases hkind : tuner.context with
    | static selections =>
      rw [hkind] at hcontext
      cases hcontext
    | tuned path table =>
      rw [hkind] at hcontext
      change table.get? op = some profile at hcontext
      unfold SelectionContext.algorithmFor
      dsimp only
      rw [if_neg hsize, hcontext]
      exact if_pos hgroup
  unfold select
  rw [hfaithful.me, hmismatch]
  rfl

/-- Nothing is reported of an algorithm that exists. -/
theorem Faithful.resolve_selected (hfaithful : Faithful host configuration me tuner)
    (request : Request) :
    (resolve request.collective (tuner.selected request)).events = [] := by
  obtain ⟨algorithm, hfound, -⟩ :=
    exists_algorithm (registered_select hfaithful.registered request.collective
      request.messageBytes)
  unfold resolve selected
  rw [hfound]
  rfl

/-- A call begins with the reports on its buffers and a trace of the selection, and it warns of
nothing but its buffers. -/
theorem Faithful.reports (hfaithful : Faithful host configuration me tuner)
    (hroot : ∀ root ∈ request.root?, root < me.size) (replies : Replies) :
    let outcome := (performed arithmetic replies tuner request input output).1
    Profile.complaints outcome.events =
        Profile.complaints (measure me request input output).events ∧
      ∀ event ∈ (tuner.select request.collective request.messageBytes).events,
        event ∈ outcome.events := by
  rw [← hfaithful.me] at hroot ⊢
  obtain ⟨later, hevents, hlater⟩ := (@always_warnsOnlyIn arithmetic tuner request input output
    hroot).answeredFrom replies 0
  obtain ⟨trace, htrace, hselect⟩ := hfaithful.select_eq request.collective request.messageBytes
  have hquiet : Profile.complaints
      (tuner.select request.collective request.messageBytes).events = [] := by
    rw [hselect, Profile.complaints, List.filter_cons_of_neg (by simp [htrace])]
    rfl
  rw [hfaithful.resolve_selected, List.append_nil] at hevents
  change Profile.complaints (performed arithmetic replies tuner request input output).1.events = _ ∧
    ∀ event ∈ _, event ∈ (performed arithmetic replies tuner request input output).1.events
  have hperformed : (performed arithmetic replies tuner request input output).1.events =
    (measure tuner.me request input output).events ++
      (tuner.select request.collective request.messageBytes).events ++ later := hevents
  rw [hperformed]
  constructor
  · rw [Profile.complaints_append, Profile.complaints_append, hquiet, hlater, List.append_nil,
      List.append_nil]
  · intro event hevent
    exact List.mem_append_left _ (List.mem_append_right _ hevent)

end Calls

/-! ### Whole runs -/

/-- **What cannot be followed is warned about when a tuner starts, but a profile for another group
size is traced only.** Let a tuner start. In a static context the warnings are about the sizes of
its scratch pools, about each selection of an unknown module and about each selection without a
known algorithm. In a tuned context the module selections are dropped, and nothing is reported of
them. Without a profile path its warnings are about the sizes. With one, all profile files hold
sheets. The warnings are about the sizes, about all that is dropped from these sheets, about their
overlapping ranges, and about all but one of the sheets of one operation. At any later point of the
run, a call warns of buffers that are too short and of nothing else. When its profile was measured
with another group size, what is active is selected, and the mismatch is a trace. -/
theorem misconfigurations_warned_at_start
    (hstart : (start host me configuration).run.value = .ok started) :
    let events := (start host me configuration).run.events
    (configuration.context = .static → ∀ event, event.level = .warn →
      (event ∈ events ↔ event ∈ sizeEvents configuration ∨
        ∃ name params, configuration.modules.get? name = some params ∧
          Misselected name params event)) ∧
    (configuration.context = .tuned →
      (∀ modules, (start host me { configuration with modules }).run.events = events) ∧
      (configuration.profilePath = none → Profile.complaints events =
        Profile.complaints (sizeEvents configuration) ++
          Profile.complaints (sizeEvents configuration))) ∧
    (∀ path ∈ directory? configuration,
      (∃ written, Profile.HoldsSheets host path written) ∧
      ∀ written, Profile.HoldsSheets host path written →
        ∃ replaced : List Collective,
          (∀ op, replaced.count op = written.countP (fun file => file.2.collective = op) - 1) ∧
          Profile.complaints events = Profile.complaints (sizeEvents configuration) ++
            ((written.flatMap fun file => file.2.complaints.map (Profile.about file.1)) ++
              Profile.complaints (replaced.map SelectionContext.superseded) ++
              Profile.complaints (sizeEvents configuration))) ∧
    ∀ tuner, ReachableAlone arithmetic host configuration me tuner →
      ∀ (request : Request) (replies : Replies) (input output : Bytes),
        (∀ root ∈ request.root?, root < me.size) →
        let outcome := (performed arithmetic replies tuner request input output).1
        Profile.complaints outcome.events =
          Profile.complaints (measure me request input output).events ∧
        ∀ profile, configured? host configuration request.collective = some profile →
          profile.groupSize ≠ me.size → request.messageBytes ≠ 0 →
          let active := tuner.catalog.active request.collective
          tuner.selected request = active ∧
          (⟨.trace, s!"{(Error.groupSizeMismatch request.collective profile.groupSize
              me.size).message}, using stored selection",
            [("op", .text request.collective.name), ("msg_size", .number request.messageBytes),
              ("alg", .number active)]⟩ : Event) ∈ outcome.events := by
  refine ⟨fun hstatic event hwarn => mem_events_start_iff hstart hstatic hwarn,
    fun htuned => ⟨events_start_of_modules htuned, fun hpath => ?_⟩,
    fun path hpath => ⟨?_, fun written hwritten => ?_⟩,
    fun tuner hreachable request replies input output hroot => ?_⟩
  · rw [complaints_start hstart htuned, hpath]
    rfl
  · obtain ⟨profiles, hprofiles⟩ := exists_ofDirectory_of_start hstart hpath
    exact Profile.exists_holdsSheets hprofiles
  · obtain ⟨replaced, hcount, hcomplaints⟩ :=
      SelectionContext.exists_complaints_prepareTuned hwritten
    obtain ⟨htuned, hprofilePath⟩ := mem_directory?_iff.mp hpath
    refine ⟨replaced, hcount, ?_⟩
    rw [complaints_start hstart htuned, hprofilePath, hcomplaints]
  · have hfaithful := faithful_of_reachableAlone hreachable
    obtain ⟨hcomplaints, htraced⟩ := @Faithful.reports arithmetic host configuration me tuner
      request input output hfaithful hroot replies
    refine ⟨hcomplaints, fun profile hprofile hgroup hsize => ?_⟩
    have hselect := hfaithful.select_of_groupSize hprofile hgroup hsize
    refine ⟨congrArg Logged.value hselect, htraced _ ?_⟩
    rw [hselect]
    exact List.mem_singleton_self _

/-- A profile for four ranks is loaded by one of two. It names an alias that it does not have, and
only that is warned about. -/
theorem misconfigurations_warned_at_start_bcast :
    let files := FileTree.files [(["p", "bcast.prf"], .file
      "MPI_Bcast\n4\n1\na bcast_as_allgatherv\n2\n1 100 a\n1 9 b\n".toUTF8.data.toList)]
    let configuration : Configuration :=
      { Configuration.default with context := .tuned, profilePath := some "p" }
    ∃ tuner, (start files.host ⟨0, 2⟩ configuration).run.value = .ok tuner ∧
      Profile.about "p/bcast.prf" "unknown alias 'b', dropping range 1..=9" ∈
        Profile.complaints (start files.host ⟨0, 2⟩ configuration).run.events ∧
      let outcome := (performed firstOperand (Pattern.echo fun _ => true) tuner (.bcast 1 .uint8 0)
        [] [5]).1
      Profile.complaints outcome.events = [] ∧ tuner.selected (.bcast 1 .uint8 0) = 0 := by
  intro files configuration
  let sheet : Profile.Sheet :=
    { collective := .bcast, groupSize := 4, aliases := [("a", "bcast_as_allgatherv")]
      ranges := [⟨1, 100, "a"⟩, ⟨1, 9, "b"⟩] }
  have hrows : Profile.rows "MPI_Bcast\n4\n1\na bcast_as_allgatherv\n2\n1 100 a\n1 9 b\n" =
      ["MPI_Bcast"] :: ["4"] :: ["1"] :: ([["a", "bcast_as_allgatherv"]] ++
        ["2"] :: [["1", "100", "a"], ["1", "9", "b"]]) := by
    decide
  have hsheet : sheet.Begins
      (Profile.rows "MPI_Bcast\n4\n1\na bcast_as_allgatherv\n2\n1 100 a\n1 9 b\n") :=
    ⟨_, List.prefix_rfl, _, _, _, _, _, _, hrows, by decide, ⟨⟨"4", by decide⟩, by decide⟩,
      ⟨"1", by decide⟩, .cons ⟨[], rfl⟩ .nil, ⟨⟨"2", by decide⟩, by decide⟩,
      .cons ⟨"1", "100", [], rfl, by decide⟩ (.cons ⟨"1", "9", [], rfl, by decide⟩ .nil)⟩
  have htext : files.readText "p/bcast.prf" =
      .ok "MPI_Bcast\n4\n1\na bcast_as_allgatherv\n2\n1 100 a\n1 9 b\n" := by
    decide +kernel
  have hwritten : Profile.HoldsSheets files "p" [("p/bcast.prf", sheet)] := by
    refine ⟨[⟨"bcast.prf", true⟩], rfl, ?_⟩
    rw [Profile.fileNames_singleton rfl]
    exact .cons ⟨by decide, _, htext, hsheet⟩ .nil
  have hstarts : (start files.host ⟨0, 2⟩ configuration).run.value.toBool = true := by
    decide +kernel
  cases hstart : (start files.host ⟨0, 2⟩ configuration).run.value with
  | error error =>
    rw [hstart] at hstarts
    cases hstarts
  | ok tuner =>
    obtain ⟨-, -, htuned, hcalls⟩ := @misconfigurations_warned_at_start firstOperand _ _ _ _ hstart
    have hprofile : configured? files configuration .bcast =
        some { collective := .bcast, groupSize := 4, ranges := [⟨1, 100, 1⟩] } := by
      decide +kernel
    obtain ⟨hquiet, hmismatch⟩ := hcalls tuner (.started hstart) (.bcast 1 .uint8 0)
      (Pattern.echo fun _ => true) [] [5] (by decide)
    refine ⟨tuner, rfl, ?_, hquiet, ?_⟩
    · obtain ⟨replaced, -, hcomplaints⟩ := (htuned "p" rfl).2 _ hwritten
      rw [hcomplaints]
      refine List.mem_append_right _ (List.mem_append_left _ (List.mem_append_left _ ?_))
      decide
    · rw [(hmismatch _ hprofile (by decide) (by decide)).1, (active_of_start hstart).2.2]
      rfl

/-- A rank of two loads a profile for four ranks and makes a call that it covers. Nothing is warned
about, neither at the start nor during the call. -/
theorem groupSize_mismatch_not_warned :
    let files := FileTree.files [(["p", "bcast.prf"], .file
      "MPI_Bcast\n4\n1\na bcast_as_allgatherv\n1\n1 100 a\n".toUTF8.data.toList)]
    let configuration : Configuration :=
      { Configuration.default with context := .tuned, profilePath := some "p" }
    ∃ tuner, (start files.host ⟨0, 2⟩ configuration).run.value = .ok tuner ∧
      (configured? files configuration .bcast).map Profile.groupSize = some 4 ∧
      Profile.warnings (start files.host ⟨0, 2⟩ configuration).run.events = 0 ∧
      let outcome := (performed firstOperand (Pattern.echo fun _ => true) tuner (.bcast 1 .uint8 0)
        [] [5]).1
      outcome.status.toBool = true ∧ Profile.warnings outcome.events = 0 := by
  intro files configuration
  have hcomputed : ((start files.host ⟨0, 2⟩ configuration).run.value.toOption.map fun tuner =>
      let outcome := (performed firstOperand (Pattern.echo fun _ => true) tuner (.bcast 1 .uint8 0)
        [] [5]).1
      (outcome.status.toBool, Profile.warnings outcome.events)) = some (true, 0) := by
    decide +kernel
  cases hstart : (start files.host ⟨0, 2⟩ configuration).run.value with
  | error error =>
    rw [hstart] at hcomputed
    cases hcomputed
  | ok tuner =>
    rw [hstart] at hcomputed
    obtain ⟨hstatus, hwarnings⟩ := Prod.mk.inj (Option.some.inj hcomputed)
    exact ⟨tuner, rfl, by decide +kernel, by decide +kernel, hstatus, hwarnings⟩

end Tuner

end CollectiveTuner
