import CollectiveTuner.Proofs.Configuration.Discards
import CollectiveTuner.Proofs.Tuner.Starting

/-!
# From the environment and the arguments to active algorithms

What a process is told by environment variables and arguments decides what its tuner starts with.
Options win over variables, and of several values for one option the last one wins. The kind of
selection that the environment names wins over the kind that follows from a profile directory.
-/

namespace CollectiveTuner

open Options

/-! ### Parameters of a module -/

namespace ModuleParams

/-- The algorithm that parameters name: what follows `alg:` in the first item that begins with it,
and otherwise the first item that has no colon and is not empty. -/
def named (params : String) : Option String :=
  let items := (params.toList.splitOnP (· == ',')).map Text.trim
  match items.find? fun item => ['a', 'l', 'g', ':'].isPrefixOf item with
  | some item => some (String.ofList (Text.trim (item.drop 4)))
  | none => (items.find? fun item => item ≠ [] ∧ ':' ∉ item).map String.ofList

/-- The key of an item is `alg` exactly when the item begins with `alg:`. -/
theorem splitOnce_colon (item : List Char) :
    (∃ value, item = 'a' :: 'l' :: 'g' :: ':' :: value ∧
      Text.splitOnce (· == ':') item = some (['a', 'l', 'g'], value)) ∨
    (['a', 'l', 'g', ':'].isPrefixOf item = false ∧
      ∀ value, Text.splitOnce (· == ':') item ≠ some (['a', 'l', 'g'], value)) := by
  by_cases halg : ['a', 'l', 'g', ':'].isPrefixOf item = true
  · obtain ⟨value, rfl⟩ := List.isPrefixOf_iff_prefix.mp halg
    exact .inl ⟨value, rfl, rfl⟩
  · refine .inr ⟨Bool.not_eq_true _ ▸ halg, fun value hsplit => halg ?_⟩
    obtain ⟨c, hc, rfl, -⟩ := Text.exists_of_splitOnce hsplit
    rw [beq_iff_eq.mp hc]
    simp

/-- The name among the items is the first one that is marked as such, or else the first that has no
mark. -/
theorem nameAmong_eq (bare : Option (List Char)) (items : List (List Char)) :
    nameAmong bare items =
      match items.find? fun item => ['a', 'l', 'g', ':'].isPrefixOf item with
      | some item => some (Text.trim (item.drop 4))
      | none => bare.or (items.find? fun item => ':' ∉ item) := by
  induction items generalizing bare with
  | nil => simp [nameAmong]
  | cons item rest ih =>
    rw [nameAmong, List.find?_cons]
    rcases splitOnce_colon item with ⟨value, rfl, hsplit⟩ | ⟨halg, hsplit⟩
    · rw [hsplit]
      rfl
    · rw [halg]
      dsimp only
      cases hcolon : Text.splitOnce (· == ':') item with
      | none =>
        have hbare : ':' ∉ item := fun hmem => by
          simpa using Text.splitOnce_eq_none_iff.mp hcolon ':' hmem
        dsimp only
        rw [ih, List.find?_cons_of_pos (by simpa using hbare)]
        cases bare <;> simp
      | some parts =>
        obtain ⟨key, value⟩ := parts
        have hkey : key ≠ ['a', 'l', 'g'] := fun hkey => hsplit value (hkey ▸ hcolon)
        have hcolon' : ':' ∈ item := by
          obtain ⟨c, hc, rfl, -⟩ := Text.exists_of_splitOnce hcolon
          simp [beq_iff_eq.mp hc]
        dsimp only
        rw [if_neg hkey, ih, List.find?_cons_of_neg (by simpa using hcolon')]

/-- Reading parameters finds the algorithm that they name. -/
theorem algorithmName?_eq_named (params : String) : algorithmName? params = named params := by
  have halg (item : List Char) : decide ((!item.isEmpty) = true ∧
      ['a', 'l', 'g', ':'].isPrefixOf item = true) = ['a', 'l', 'g', ':'].isPrefixOf item := by
    rw [Bool.eq_iff_iff]
    cases item <;> simp
  have hbare (item : List Char) : decide ((!item.isEmpty) = true ∧ decide (':' ∉ item) = true) =
      decide (item ≠ [] ∧ ':' ∉ item) := by
    cases item <;> simp
  unfold algorithmName? named items
  rw [nameAmong_eq, List.find?_filter, List.find?_filter]
  simp only [halg, hbare]
  cases List.find? (fun item => ['a', 'l', 'g', ':'].isPrefixOf item)
    ((params.toList.splitOnP (· == ',')).map Text.trim) <;> rfl

end ModuleParams

/-- The name of an algorithm stands for its identifier. -/
theorem Choice.idOf_name {op : Collective} (algorithm : Algorithm op) :
    idOf op.choices algorithm.name = .ok algorithm.id := by
  cases algorithm with
  | native op => cases op <;> rfl
  | _ => rfl

/-- A name stands for nothing when no algorithm of the operation has it. -/
theorem Choice.idOf_eq_error_iff {op : Collective} {name : String} {error : Error} :
    idOf op.choices name = .error error ↔
      error = .invalidAlgorithmName name ∧ ∀ known : Algorithm op, known.name ≠ name := by
  constructor
  · intro herror
    refine ⟨eq_of_idOf_eq_error herror, ?_⟩
    rintro known rfl
    rw [idOf_name] at herror
    cases herror
  · rintro ⟨rfl, hunknown⟩
    cases hid : idOf op.choices name with
    | error error => rw [eq_of_idOf_eq_error hid]
    | ok id =>
      obtain ⟨known, -, hknown⟩ := List.mem_map.mp (idOf_eq_ok_iff.mp hid)
      exact absurd (Choice.mk.inj hknown).2 (hunknown known)

/-- Parameters that name an algorithm ask for it. -/
theorem Collective.requested_of_named {op : Collective} {params : String}
    {algorithm : Algorithm op} (hnamed : ModuleParams.named params = some algorithm.name) :
    op.requested params = algorithm.id := by
  rw [requested, ModuleParams.algorithmName?_eq_named, hnamed, Option.map_some, Choice.idOf_name]

/-- Parameters that name no algorithm of the operation ask for the default. -/
theorem Collective.requested_of_not_named {op : Collective} {params : String}
    (hnamed : ∀ algorithm : Algorithm op, ModuleParams.named params ≠ some algorithm.name) :
    op.requested params = defaultAlgorithm := by
  rw [requested, ModuleParams.algorithmName?_eq_named]
  cases hname : ModuleParams.named params with
  | none => rfl
  | some name =>
    have hunknown (known : Algorithm op) : known.name ≠ name := by
      rintro rfl
      exact hnamed known hname
    rw [Option.map_some, Choice.idOf_eq_error_iff.mpr ⟨rfl, hunknown⟩]

/-! ### The configuration of a process -/

namespace Configuration

/-- The settings file changes the settings only. -/
theorem value_loadSettingsFile (configuration : Configuration) (files : Files) :
    ∃ settings, (configuration.loadSettingsFile files).value =
      { configuration with settings } := by
  unfold loadSettingsFile
  split
  · exact ⟨configuration.settings, rfl⟩
  · dsimp only [Logged.value_bind]
    split
    · exact ⟨_, rfl⟩
    · exact ⟨configuration.settings, rfl⟩

/-- What a process is told about profiles, settings, modules and the kind of selection. -/
theorem fields_ofProcess {files : Files} {environment : Environment} {arguments : List String}
    {configuration : Configuration}
    (hconfiguration : (ofProcess files environment arguments).value = configuration) :
    configuration.profilePath = (lastValue (given arguments) .profilePath).or
        (environment.get? "PGMPI_PROFILE_PATH") ∧
      configuration.configFile = (lastValue (given arguments) .config).or
        (environment.get? "PGMPI_CONFIG_FILE") ∧
      (∀ op : Collective, configuration.modules.get? op.shortName =
        lastParams (given arguments) op) ∧
      configuration.context = (contextFrom environment).value.getD
        (if configuration.profilePath.isSome then .tuned else .static) := by
  obtain ⟨hprofile, hfile, hmodules⟩ := fields_ofArguments arguments
  obtain ⟨settings, hload⟩ := value_loadSettingsFile
    { ofSources environment (Options.ofArguments arguments).value with
      context := (contextFrom environment).value.getD
        (ofSources environment (Options.ofArguments arguments).value).context } files
  obtain rfl := hload.symm.trans hconfiguration
  refine ⟨?_, ?_, fun op => ?_, ?_⟩
  · simp [ofSources, applyOptions, applyEnvironment, default, hprofile]
  · simp [ofSources, applyOptions, applyEnvironment, default, hfile]
  · simp [ofSources, applyOptions, applyEnvironment, default,
      Dictionary.get?_insertAll_of_perm _ (.refl _), hmodules]
  · rfl

end Configuration

namespace Tuner

variable {files : Files} {host : Host} {environment : Environment} {arguments : List String}
  {configuration : Configuration} {me : Member} {tuner : Tuner}

/-- What a tuner starts with: its own kind of context, and the active algorithms that its modules
ask for, or the default ones. -/
theorem active_of_start (hstart : (start host me configuration).run.value = .ok tuner) :
    tuner.configuration = configuration ∧ tuner.context.kind = configuration.context ∧
      tuner.catalog.active = fun op =>
        match configuration.context with
        | .static => ((configuration.modules.get? op.shortName).map op.requested).getD
            defaultAlgorithm
        | .tuned => defaultAlgorithm := by
  obtain ⟨arena, context, catalog, -, hprepared, rfl⟩ := exists_of_start hstart
  unfold SelectionContext.ofConfiguration at hprepared
  cases hkind : configuration.context with
  | static =>
    rw [hkind] at hprepared
    obtain ⟨prepared, hstatic, hprepared⟩ := exists_of_value_bind hprepared
    obtain ⟨rfl, rfl⟩ := Prod.mk.inj (Except.ok.inj hprepared)
    rw [SelectionContext.value_prepareStatic] at hstatic
    obtain rfl := Except.ok.inj hstatic
    refine ⟨rfl, rfl, ?_⟩
    funext op
    dsimp only
    cases configuration.modules.get? op.shortName <;> rfl
  | tuned =>
    rw [hkind] at hprepared
    obtain ⟨table, -, hprepared⟩ := exists_of_value_bind hprepared
    obtain ⟨rfl, rfl⟩ := Prod.mk.inj (Except.ok.inj hprepared)
    exact ⟨rfl, rfl, rfl⟩

/-- **The environment and the arguments decide what is active.** Let a tuner start with what a
process is told. Its profile directory is the last one among the options, and otherwise the one of
the environment, and so is its settings file. The kind of its context is the one that the
environment names, and otherwise it is tuned exactly when there is a profile directory. In a static
context the algorithm of an operation is the one that the last parameters for its module name, and
the default when there are none or they name none of its algorithms. In a tuned context all
algorithms are the default. -/
theorem sources_decide_active
    (hstart : (start host me
      (Configuration.ofProcess files environment arguments).value).run.value = .ok tuner) :
    ∃ options, (∀ other, Given arguments other ↔ other = options) ∧
      tuner.configuration.profilePath =
        (lastValue options .profilePath).or (environment.get? "PGMPI_PROFILE_PATH") ∧
      tuner.configuration.configFile =
        (lastValue options .config).or (environment.get? "PGMPI_CONFIG_FILE") ∧
      (∀ text kind, environment.get? "PGMPI_CONTEXT" = some text →
        ContextKind.ofText text = .ok kind → tuner.context.kind = kind) ∧
      ((∀ text ∈ environment.get? "PGMPI_CONTEXT",
          ∃ error, ContextKind.ofText text = .error error) →
        (tuner.context.kind = .tuned ↔ tuner.configuration.profilePath.isSome)) ∧
      (tuner.context.kind = .static → ∀ op,
        (∀ algorithm : Algorithm op,
          (lastParams options op).bind ModuleParams.named = some algorithm.name →
            tuner.catalog.active op = algorithm.id) ∧
        ((∀ algorithm : Algorithm op,
          (lastParams options op).bind ModuleParams.named ≠ some algorithm.name) →
            tuner.catalog.active op = 0)) ∧
      (tuner.context.kind = .tuned → ∀ op, tuner.catalog.active op = 0) := by
  obtain ⟨hconfiguration, hkind, hactive⟩ := active_of_start hstart
  obtain ⟨hprofile, hfile, hmodules, hcontext⟩ :=
    Configuration.fields_ofProcess hconfiguration.symm
  rw [← hconfiguration] at hkind hactive
  rw [Configuration.value_contextFrom] at hcontext
  refine ⟨given arguments, fun other => given_iff, hprofile, hfile, ?_, ?_, ?_, ?_⟩
  · intro text kind htext hparsed
    rw [hkind, hcontext, htext, Option.bind_some, hparsed]
    rfl
  · intro hunparsed
    have hnone : ((environment.get? "PGMPI_CONTEXT").bind fun text =>
        (ContextKind.ofText text).toOption) = none := by
      rw [Option.bind_eq_none_iff]
      intro text htext
      obtain ⟨error, herror⟩ := hunparsed text htext
      rw [herror]
      rfl
    rw [hkind, hcontext, hnone, Option.getD_none]
    cases tuner.configuration.profilePath <;> simp
  · intro hstatic op
    rw [← hkind, hstatic] at hactive
    rw [hactive]
    dsimp only
    rw [hmodules]
    cases lastParams (given arguments) op with
    | none => exact ⟨fun algorithm hnamed => (by cases hnamed), fun _ => rfl⟩
    | some params =>
      exact ⟨fun algorithm hnamed => Collective.requested_of_named hnamed,
        fun hnamed => Collective.requested_of_not_named hnamed⟩
  · intro htuned op
    rw [← hkind, htuned] at hactive
    rw [hactive]
    rfl

/-- The second of two module options wins, and the environment keeps a profile directory from
selecting the tuned kind. -/
theorem sources_decide_active_bcast : ∃ tuner,
    (start (FileTree.files []).host ⟨0, 2⟩ (Configuration.ofProcess (FileTree.files [])
      [("PGMPI_CONTEXT", " Static"), ("PGMPI_PROFILE_PATH", "p")]
      ["run", "--module=bcast=bcast_as_allgatherv", "--ppath", "q", "--module",
        " bcast = x:1, alg: bcast_as_scatter_allgather", "--ppath"]).value).run.value = .ok tuner ∧
      tuner.configuration.profilePath = some "q" ∧ tuner.context.kind = .static ∧
      tuner.catalog.active .bcast = 2 ∧ tuner.catalog.active .gather = 0 := by
  obtain ⟨tuner, hstart⟩ : ∃ tuner,
    (start (FileTree.files []).host ⟨0, 2⟩ (Configuration.ofProcess (FileTree.files [])
      [("PGMPI_CONTEXT", " Static"), ("PGMPI_PROFILE_PATH", "p")]
      ["run", "--module=bcast=bcast_as_allgatherv", "--ppath", "q", "--module",
        " bcast = x:1, alg: bcast_as_scatter_allgather", "--ppath"]).value).run.value = .ok tuner :=
    ⟨_, rfl⟩
  obtain ⟨options, hgiven, hprofile, -, hcontext, -, hstatic, -⟩ := sources_decide_active hstart
  have hoptions : options = [(.module, "bcast=bcast_as_allgatherv"), (.profilePath, "q"),
      (.module, " bcast = x:1, alg: bcast_as_scatter_allgather")] :=
    ((hgiven _).mp (given_iff.mpr (by rfl))).symm
  have hkind := hcontext " Static" .static rfl (by rfl)
  have hactive := hstatic hkind
  rw [hoptions] at hprofile hactive
  refine ⟨tuner, hstart, hprofile, hkind, ?_, ?_⟩
  · exact (hactive .bcast).1 .bcastAsScatterAllgather (by rfl)
  · exact (hactive .gather).2 fun algorithm hnamed => by cases hnamed

end Tuner

end CollectiveTuner
