import CollectiveTuner.Configuration
import CollectiveTuner.FileTree
import CollectiveTuner.Proofs.Options.Arguments
import CollectiveTuner.Proofs.Settings.Texts

/-!
# Discarded inputs of a configuration

A process can be told things that it cannot use. Each of them is discarded, and the configuration
is the one without it. All but one kind are reported by one warning each, and there are no other
reports: a `PGMPI_MIN_SCATTER_CHUNK` that is not a number is dropped in silence.
-/

namespace CollectiveTuner

open Options

/-- The environment without a variable. -/
def Environment.without (environment : Environment) (name : String) : Environment :=
  environment.filter fun entry => entry.1 ≠ name

/-- A removed variable is unset. -/
theorem Environment.get?_without_self (environment : Environment) (name : String) :
    (environment.without name).get? name = none := by
  rw [get?, List.lookup_eq_none_iff]
  intro entry hentry
  rw [bne_iff_ne]
  have hne : entry.1 ≠ name := by simpa using (List.mem_filter.mp hentry).2
  exact hne.symm

/-- Removing one variable leaves the others as they are. -/
theorem Environment.get?_without_of_ne (environment : Environment) {name other : String}
    (hne : other ≠ name) : (environment.without name).get? other = environment.get? other := by
  unfold get? without
  induction environment with
  | nil => rfl
  | cons entry rest ih =>
    obtain ⟨variable_, value⟩ := entry
    rw [List.filter_cons, List.lookup_cons]
    by_cases hvariable : variable_ = name
    · have hother : (other == variable_) = false := by
        rw [beq_eq_false_iff_ne, hvariable]
        exact hne
      rw [if_neg (by simpa using hvariable), ih, hother]
    · rw [if_pos (by simpa using hvariable), List.lookup_cons, ih]

namespace Configuration

/-- What a process takes its configuration from. -/
structure Sources where
  /-- The files. -/
  files : Files
  /-- The environment variables. -/
  environment : Environment
  /-- The arguments. -/
  arguments : List String

/-- An input that cannot be used. -/
inductive Discard
  | context (text : String)
  | minScatterChunk (text : String)
  | moduleValue (value : String)
  | optionWithoutValue (name : OptionName)
  | settingsFile (path : String) (cause : FileError)
  | settingsLine (number : Nat) (content : String)
  deriving DecidableEq

/-- What is reported of a discarded input. -/
def Discard.event? : Discard → Option Event
  | context text => some ⟨.warn, (Error.invalidSetting "context" text).message, []⟩
  | minScatterChunk _ => none
  | moduleValue value => some (malformedModule value)
  | optionWithoutValue name => some (missingValue name)
  | settingsFile path cause =>
    some ⟨.warn, s!"cannot read settings file: {(Error.unreadableFile cause).message}",
      [("path", .text path)]⟩
  | settingsLine number content => some (Settings.faultyLine number content)

namespace Sources

variable (sources : Sources)

/-- The configuration of a process. -/
def configuration : Logged Configuration :=
  ofProcess sources.files sources.environment sources.arguments

/-- The settings file that is named: the last one among the options, and otherwise the one of the
environment. -/
def settingsPath : Option String :=
  (lastValue (given sources.arguments) .config).or
    (sources.environment.get? "PGMPI_CONFIG_FILE")

/-- The variables whose values cannot be used. -/
def discardedVariables : List Discard :=
  ((sources.environment.get? "PGMPI_CONTEXT").filter fun text =>
      (ContextKind.ofText text).toOption.isNone).toList.map .context ++
    ((sources.environment.get? "PGMPI_MIN_SCATTER_CHUNK").filter fun text =>
      (Text.unsigned? 64 text.toList).isNone).toList.map .minScatterChunk

/-- The options whose values cannot be used, and the one without a value. -/
def discardedOptions : List Discard :=
  ((given sources.arguments).filter isMalformed).map (fun option => .moduleValue option.2) ++
    (pending sources.arguments).toList.map .optionWithoutValue

/-- The settings file if it cannot be read, and otherwise its lines without a value. -/
def discardedSettings : List Discard :=
  match sources.settingsPath with
  | none => []
  | some path =>
    match sources.files.readText path with
    | .ok text => (Settings.faultyLines text).map fun line => .settingsLine line.1 line.2
    | .error cause => [.settingsFile path cause]

/-- The inputs that cannot be used. -/
def discards : List Discard :=
  sources.discardedVariables ++ sources.discardedOptions ++ sources.discardedSettings

end Sources

/-- The second sources lack an input of the first ones, and are the same otherwise. A settings file
that cannot be read is as good as an empty one, and of the files only the one at the settings path
matters. -/
inductive Without : Sources → Discard → Sources → Prop
  | context (sources : Sources) (text : String) :
      Without sources (.context text)
        { sources with environment := sources.environment.without "PGMPI_CONTEXT" }
  | minScatterChunk (sources : Sources) (text : String) :
      Without sources (.minScatterChunk text)
        { sources with environment := sources.environment.without "PGMPI_MIN_SCATTER_CHUNK" }
  | inlineModule (files : Files) (environment : Environment) {before : List String}
      (value : String) (after : List String) (hbefore : pending before = none) :
      Without ⟨files, environment, before ++ (OptionName.module.flag ++ "=" ++ value) :: after⟩
        (.moduleValue value) ⟨files, environment, before ++ after⟩
  | separateModule (files : Files) (environment : Environment) {before : List String}
      (value : String) (after : List String) (hbefore : pending before = none) :
      Without ⟨files, environment, before ++ OptionName.module.flag :: value :: after⟩
        (.moduleValue value) ⟨files, environment, before ++ after⟩
  | optionWithoutValue (files : Files) (environment : Environment) {before : List String}
      (name : OptionName) (hbefore : pending before = none) :
      Without ⟨files, environment, before ++ [name.flag]⟩ (.optionWithoutValue name)
        ⟨files, environment, before⟩
  | settingsFile (sources : Sources) {path : String} {cause : FileError} {files : Files}
      (hpath : sources.settingsPath = some path)
      (hread : sources.files.readText path = .error cause)
      (hwithout : files.readText path = .ok "") :
      Without sources (.settingsFile path cause) { sources with files }
  | settingsLine (sources : Sources) {path text text' : String} {earlier later : List (List Char)}
      {line : List Char} {files : Files} (hpath : sources.settingsPath = some path)
      (hread : sources.files.readText path = .ok text)
      (hlines : Text.lines text.toList = earlier ++ line :: later)
      (hwithout : files.readText path = .ok text')
      (hlines' : Text.lines text'.toList = earlier ++ later) :
      Without sources (.settingsLine (earlier.length + 1) (String.ofList (Text.trim line)))
        { sources with files }

/-! ### Reports -/

/-- What the environment names is the kind of selection, if it is one. -/
theorem value_contextFrom (environment : Environment) : (contextFrom environment).value =
    (environment.get? "PGMPI_CONTEXT").bind fun text => (ContextKind.ofText text).toOption := by
  unfold contextFrom
  cases environment.get? "PGMPI_CONTEXT" with
  | none => rfl
  | some text =>
    dsimp only [Option.bind_some]
    cases ContextKind.ofText text <;> rfl

/-- The only thing to report about the context variable is a text that names no context. -/
theorem events_contextFrom (environment : Environment) : (contextFrom environment).events =
    (((environment.get? "PGMPI_CONTEXT").filter fun text =>
      (ContextKind.ofText text).toOption.isNone).toList.map Discard.context).filterMap
        Discard.event? := by
  unfold contextFrom
  cases environment.get? "PGMPI_CONTEXT" with
  | none => rfl
  | some text =>
    have herror : ContextKind.ofText text = .ok .static ∨ ContextKind.ofText text = .ok .tuned ∨
        ContextKind.ofText text = .error (.invalidSetting "context" text) := by
      unfold ContextKind.ofText
      dsimp only
      split
      · exact .inl rfl
      · split
        · exact .inr (.inl rfl)
        · exact .inr (.inr rfl)
    dsimp only
    rw [Option.filter_some]
    rcases herror with hkind | hkind | hkind <;> rw [hkind] <;> rfl

/-- The settings file that the configuration names before it is read. -/
theorem configFile_ofSources (sources : Sources) :
    (ofSources sources.environment (Options.ofArguments sources.arguments).value).configFile =
      sources.settingsPath := by
  obtain ⟨-, hfile, -⟩ := fields_ofArguments sources.arguments
  simp only [ofSources, applyOptions, applyEnvironment, default, Option.or_none, hfile,
    Sources.settingsPath]

/-- The configuration before the settings file is read. -/
def Sources.unread (sources : Sources) : Configuration :=
  let configuration :=
    ofSources sources.environment (Options.ofArguments sources.arguments).value
  { configuration with
    context := (contextFrom sources.environment).value.getD configuration.context }

/-- What is read from the settings file. -/
theorem loadSettingsFile_unread (sources : Sources) :
    sources.unread.loadSettingsFile sources.files =
      match sources.settingsPath with
      | none => ⟨sources.unread, []⟩
      | some path =>
        match sources.files.readText path with
        | .ok text =>
          ⟨{ sources.unread with settings := (Settings.default.merge text).value },
            (Settings.default.merge text).events⟩
        | .error cause =>
          ⟨sources.unread, (Discard.settingsFile path cause).event?.toList⟩ := by
  have hsettings : sources.unread.settings = Settings.default := rfl
  have hfile : sources.unread.configFile = sources.settingsPath := configFile_ofSources sources
  unfold loadSettingsFile
  rw [hfile]
  cases hpath : sources.settingsPath with
  | none => rfl
  | some path =>
    rw [hpath] at hfile
    dsimp only
    rw [hsettings, hfile]
    unfold Settings.mergeFile
    cases sources.files.readText path with
    | error cause => rfl
    | ok text =>
      refine congrArg₂ Logged.mk rfl ?_
      exact (List.append_nil _).trans (List.append_nil _)

/-- The reports are the discarded inputs that have a report. -/
theorem events_configuration (sources : Sources) :
    sources.configuration.events = sources.discards.filterMap Discard.event? := by
  have hvariables : (contextFrom sources.environment).events =
      sources.discardedVariables.filterMap Discard.event? := by
    -- nothing is reported of the chunk
    have hchunk (texts : List String) :
        (texts.map Discard.minScatterChunk).filterMap Discard.event? = [] := by
      rw [List.filterMap_map]
      exact List.filterMap_eq_nil_iff.mpr fun _ _ => rfl
    rw [events_contextFrom, Sources.discardedVariables, List.filterMap_append, hchunk,
      List.append_nil]
  have hoptions : (Options.ofArguments sources.arguments).events =
      sources.discardedOptions.filterMap Discard.event? := by
    rw [Options.ofArguments, events_scan, Sources.discardedOptions, List.filterMap_append,
      List.filterMap_map, List.filterMap_map, ← List.filterMap_eq_map, ← List.filterMap_eq_map]
    rfl
  have hsettings : (sources.unread.loadSettingsFile sources.files).events =
      sources.discardedSettings.filterMap Discard.event? := by
    rw [loadSettingsFile_unread, Sources.discardedSettings]
    cases sources.settingsPath with
    | none => rfl
    | some path =>
      dsimp only
      cases sources.files.readText path with
      | error cause => rfl
      | ok text =>
        dsimp only
        rw [Settings.merge_eq, List.filterMap_map, ← List.filterMap_eq_map]
        rfl
  calc sources.configuration.events
      = (contextFrom sources.environment).events ++
          ((Options.ofArguments sources.arguments).events ++
            (sources.unread.loadSettingsFile sources.files).events) := rfl
    _ = sources.discards.filterMap Discard.event? := by
        rw [hvariables, hoptions, hsettings, Sources.discards, List.filterMap_append,
          List.filterMap_append, List.append_assoc]

/-! ### Discarded inputs -/

/-- When an input is discarded. -/
theorem mem_discards_iff {sources : Sources} {discard : Discard} :
    discard ∈ sources.discards ↔
      match discard with
      | .context text => sources.environment.get? "PGMPI_CONTEXT" = some text ∧
          (ContextKind.ofText text).toOption = none
      | .minScatterChunk text => sources.environment.get? "PGMPI_MIN_SCATTER_CHUNK" = some text ∧
          Text.unsigned? 64 text.toList = none
      | .moduleValue value => (.module, value) ∈ given sources.arguments ∧
          isModuleValue value = false
      | .optionWithoutValue name => pending sources.arguments = some name
      | .settingsFile path cause => sources.settingsPath = some path ∧
          sources.files.readText path = .error cause
      | .settingsLine number content => ∃ path text, sources.settingsPath = some path ∧
          sources.files.readText path = .ok text ∧
          (number, content) ∈ Settings.faultyLines text := by
  have hsettings : discard ∈ sources.discardedSettings ↔
      ∃ path, sources.settingsPath = some path ∧
        ((∃ text line, sources.files.readText path = .ok text ∧
            line ∈ Settings.faultyLines text ∧ Discard.settingsLine line.1 line.2 = discard) ∨
          ∃ cause, sources.files.readText path = .error cause ∧
            discard = .settingsFile path cause) := by
    unfold Sources.discardedSettings
    cases sources.settingsPath with
    | none => simp
    | some path =>
      dsimp only
      cases hread : sources.files.readText path <;> simp [hread]
  rw [Sources.discards, List.mem_append, List.mem_append, hsettings]
  cases discard <;>
    simp [Sources.discardedVariables, Sources.discardedOptions, isMalformed,
      Option.filter_eq_some_iff]

section Without

variable {sources others : Sources} {discard : Discard}

/-- The options are the same without a module option whose value cannot be used. -/
theorem value_ofArguments_of_isMalformed {arguments others : List String}
    {before after : List (OptionName × String)} {option : OptionName × String}
    (hmalformed : isMalformed option = true) (hgiven : given arguments = before ++ option :: after)
    (hothers : given others = before ++ after) :
    (Options.ofArguments others).value = (Options.ofArguments arguments).value := by
  rw [Options.ofArguments, Options.ofArguments, value_scan, value_scan, hgiven, hothers,
    List.foldl_append, List.foldl_append, List.foldl_cons, assign_of_isMalformed _ hmalformed]

/-- Without a discarded variable or option the configuration is the same before the settings file
is read. -/
theorem unread_congr
    (hcontext : (contextFrom others.environment).value = (contextFrom sources.environment).value)
    (hvariables : default.applyEnvironment others.environment =
      default.applyEnvironment sources.environment)
    (hoptions : (Options.ofArguments others.arguments).value =
      (Options.ofArguments sources.arguments).value) : others.unread = sources.unread := by
  unfold Sources.unread ofSources
  rw [hcontext, hvariables, hoptions]

/-- The configuration is the one from the variables, after the settings file is read. -/
theorem value_configuration (sources : Sources) : sources.configuration.value =
    (sources.unread.loadSettingsFile sources.files).value := rfl

/-- The configuration depends on nothing but the files and what the variables leave to be read. -/
theorem value_configuration_congr (hfiles : others.files = sources.files)
    (hunread : others.unread = sources.unread) :
    others.configuration.value = sources.configuration.value := by
  rw [value_configuration, value_configuration, hfiles, hunread]

/-- The configuration depends on the settings only that come from the file. -/
theorem value_configuration_of_readText {path text : String}
    (hpath : sources.settingsPath = some path) (hread : sources.files.readText path = .ok text) :
    sources.configuration.value =
      { sources.unread with settings := (Settings.default.merge text).value } := by
  rw [value_configuration, loadSettingsFile_unread, hpath]
  dsimp only
  rw [hread]

/-- A discarded input does not matter. -/
theorem value_configuration_of_without (hdiscard : discard ∈ sources.discards)
    (hwithout : Without sources discard others) :
    others.configuration.value = sources.configuration.value := by
  rw [mem_discards_iff] at hdiscard
  cases hwithout with
  | context sources text =>
    obtain ⟨hget, hunknown⟩ := hdiscard
    refine value_configuration_congr rfl (unread_congr ?_ ?_ rfl)
    · rw [value_contextFrom, value_contextFrom, Environment.get?_without_self, hget]
      exact hunknown.symm
    · unfold applyEnvironment
      dsimp only
      rw [Environment.get?_without_of_ne _ (by decide),
        Environment.get?_without_of_ne _ (by decide),
        Environment.get?_without_of_ne _ (by decide), Environment.get?_without_of_ne _ (by decide)]
  | minScatterChunk sources text =>
    obtain ⟨hget, hunknown⟩ := hdiscard
    refine value_configuration_congr rfl (unread_congr ?_ ?_ rfl)
    · rw [value_contextFrom, value_contextFrom, Environment.get?_without_of_ne _ (by decide)]
    · unfold applyEnvironment
      dsimp only
      rw [Environment.get?_without_of_ne _ (by decide),
        Environment.get?_without_of_ne _ (by decide),
        Environment.get?_without_of_ne _ (by decide), Environment.get?_without_self, hget,
        Option.bind_some, hunknown]
      rfl
  | inlineModule files environment value after hbefore =>
    refine value_configuration_congr rfl (unread_congr rfl rfl ?_)
    refine @value_ofArguments_of_isMalformed _ _ (given _) (given after) (.module, value) ?_ ?_
      (given_append hbefore after)
    · rw [isMalformed, hdiscard.2]
      rfl
    · rw [given_append hbefore, given_inline]
  | separateModule files environment value after hbefore =>
    refine value_configuration_congr rfl (unread_congr rfl rfl ?_)
    refine @value_ofArguments_of_isMalformed _ _ (given _) (given after) (.module, value) ?_ ?_
      (given_append hbefore after)
    · rw [isMalformed, hdiscard.2]
      rfl
    · rw [given_append hbefore, given_separate]
  | optionWithoutValue files environment name hbefore =>
    refine value_configuration_congr rfl (unread_congr rfl rfl ?_)
    dsimp only
    rw [Options.ofArguments, Options.ofArguments, value_scan, value_scan, given_append hbefore,
      given_flag, List.append_nil]
  | @settingsFile sources path cause files hpath hread hwithout =>
    have hvalue : sources.configuration.value = sources.unread := by
      rw [value_configuration, loadSettingsFile_unread, hpath]
      dsimp only
      rw [hread]
    rw [hvalue, @value_configuration_of_readText { sources with files } path "" hpath hwithout]
    rfl
  | @settingsLine sources path text text' earlier later line files hpath hread hlines hwithout
      hlines' =>
    obtain ⟨_, _, hpath', hread', hmem⟩ := hdiscard
    obtain rfl := Option.some.inj (hpath.symm.trans hpath')
    obtain rfl := Except.ok.inj (hread.symm.trans hread')
    obtain ⟨_, other, _, hother, hlacks, hlength, -⟩ := Settings.mem_faultyLines.mp hmem
    obtain ⟨rfl, hrest⟩ := List.append_inj (hlines.symm.trans hother) (Nat.succ.inj hlength)
    obtain ⟨rfl, -⟩ := List.cons.inj hrest
    rw [value_configuration_of_readText hpath hread,
      @value_configuration_of_readText { sources with files } path text' hpath hwithout,
      Settings.value_merge_of_lacksValue Settings.default hlacks hlines hlines']
    rfl

/-- There are sources without each discarded input. -/
theorem exists_without (hdiscard : discard ∈ sources.discards) :
    ∃ others, Without sources discard others := by
  rw [mem_discards_iff] at hdiscard
  cases discard with
  | context text => exact ⟨_, .context sources text⟩
  | minScatterChunk text => exact ⟨_, .minScatterChunk sources text⟩
  | moduleValue value =>
    obtain ⟨files, environment, arguments⟩ := sources
    obtain ⟨before, after, hbefore, rfl | rfl⟩ := exists_of_mem_given hdiscard.1
    · exact ⟨_, .inlineModule files environment value after hbefore⟩
    · exact ⟨_, .separateModule files environment value after hbefore⟩
  | optionWithoutValue name =>
    obtain ⟨files, environment, arguments⟩ := sources
    obtain ⟨before, rfl, hbefore⟩ := pending_eq_some_iff.mp hdiscard
    exact ⟨_, .optionWithoutValue files environment name hbefore⟩
  | settingsFile path cause =>
    obtain ⟨hpath, hread⟩ := hdiscard
    exact ⟨_, .settingsFile sources hpath hread (sources.files.readText_withText path "")⟩
  | settingsLine number content =>
    obtain ⟨path, text, hpath, hread, hmem⟩ := hdiscard
    obtain ⟨earlier, line, later, hlines, -, rfl, rfl⟩ := Settings.mem_faultyLines.mp hmem
    obtain ⟨text', hlines'⟩ : ∃ text' : String, Text.lines text'.toList = earlier ++ later := by
      refine Text.exists_lines_eq fun other hother => ?_
      refine @Text.not_mem_of_mem_lines other text.toList ?_
      rw [hlines, List.mem_append, List.mem_cons]
      rcases List.mem_append.mp hother with hearlier | hlater
      · exact .inl hearlier
      · exact .inr (.inr hlater)
    exact ⟨_, .settingsLine sources hpath hread hlines
      (sources.files.readText_withText path text') hlines'⟩

end Without

/-- **Inputs that cannot be used are discarded one by one, and reported but for one kind.** The
reports are those of the discarded inputs, in their order, and each of them is a warning. A
`PGMPI_MIN_SCATTER_CHUNK` that is not a number has none. Every discarded input can be left out of
the sources, and the configuration is the same without it. -/
theorem unusable_inputs_are_dropped (sources : Sources) :
    sources.configuration.events = sources.discards.filterMap Discard.event? ∧
    ∀ discard ∈ sources.discards,
      (∀ event ∈ discard.event?, event.level = .warn) ∧
      (discard.event? = none ↔ ∃ text, discard = .minScatterChunk text) ∧
      (∃ others, Without sources discard others) ∧
      ∀ others, Without sources discard others →
        others.configuration.value = sources.configuration.value := by
  refine ⟨events_configuration sources, ?_⟩
  intro discard hdiscard
  refine ⟨?_, ?_, exists_without hdiscard, ?_⟩
  · intro event hevent
    cases discard with
    | minScatterChunk text => cases hevent
    | _ =>
      obtain rfl := Option.some.inj hevent
      rfl
  · cases discard <;> simp [Discard.event?]
  · intro others hwithout
    exact value_configuration_of_without hdiscard hwithout

/-- Everything that a process is told here is discarded but for the name of a settings file and the
first of its lines. -/
theorem unusable_inputs_are_dropped_five :
    let sources : Sources :=
      { files := FileTree.files [(["s"], .file "a b\nc\n".toUTF8.data.toList)]
        environment := [("PGMPI_CONTEXT", "x"), ("PGMPI_MIN_SCATTER_CHUNK", "many")]
        arguments := ["--module", "=alg:default", "--config=s", "--ppath"] }
    sources.configuration.events = [
      ⟨.warn, "invalid value 'x' for setting context", []⟩,
      ⟨.warn, "expected --module <prefix>=<params>", [("value", .text "=alg:default")]⟩,
      ⟨.warn, "missing value", [("option", .text "--ppath")]⟩,
      ⟨.warn, "faulty settings line", [("line", .number 2), ("content", .text "c")]⟩] ∧
    sources.configuration.value =
      ({ sources with arguments := ["--config=s", "--ppath"] } : Sources).configuration.value := by
  intro sources
  obtain ⟨hevents, hdropped⟩ := unusable_inputs_are_dropped sources
  have hdiscards : sources.discards = [.context "x", .minScatterChunk "many",
      .moduleValue "=alg:default", .optionWithoutValue .profilePath, .settingsLine 2 "c"] := by
    decide +kernel
  constructor
  · rw [hevents, hdiscards]
    rfl
  · obtain ⟨-, -, -, hsame⟩ := hdropped (.moduleValue "=alg:default") (by rw [hdiscards]; simp)
    exact (hsame _
      (@Without.separateModule _ _ [] "=alg:default" ["--config=s", "--ppath"] rfl)).symm

/-- A chunk that is not a number is discarded, and nothing is reported. -/
theorem scatter_chunk_dropped_in_silence :
    let sources : Sources :=
      { files := FileTree.files [], environment := [("PGMPI_MIN_SCATTER_CHUNK", "x")],
        arguments := [] }
    Discard.minScatterChunk "x" ∈ sources.discards ∧ sources.configuration.events = [] ∧
      sources.configuration.value.minScatterChunk = default.minScatterChunk := by
  decide +kernel

end Configuration

end CollectiveTuner
