import CollectiveTuner.Proofs.Tuner.Directories

/-!
# Prepared contexts

Preparing a static context makes the algorithms active that the users' parameters ask for, and
cannot fail. Preparing a tuned one loads the profiles of a directory. All their algorithms are
registered, so none of them is skipped, and for each operation the last one is kept.
-/

namespace CollectiveTuner

/-! ### Module parameters -/

/-- The operation of a short name is the one that has it. -/
theorem Collective.ofShortName?_eq_some_iff {name : String} {op : Collective} :
    ofShortName? name = some op ↔ op.shortName = name :=
  find?_all_eq_some_iff (by decide)

/-- A short name without an operation is the short name of none. -/
theorem Collective.ofShortName?_eq_none_iff {name : String} :
    ofShortName? name = none ↔ ∀ op : Collective, op.shortName ≠ name := by
  simp only [Option.eq_none_iff_forall_ne_some, ne_eq, ofShortName?_eq_some_iff]

/-- The algorithm that a parameter text asks for: the one that it names, and the default when it
names none of the operation. -/
def Collective.requested (op : Collective) (params : String) : AlgorithmId :=
  match (ModuleParams.algorithmName? params).map (Choice.idOf op.choices) with
  | some (.ok id) => id
  | _ => defaultAlgorithm

/-- The algorithm that module parameters ask for is registered. -/
theorem Collective.registered_requested (op : Collective) (params : String) :
    (op.choices.any fun choice => choice.id == op.requested params) = true := by
  have hdefault : (op.choices.any fun choice => choice.id == defaultAlgorithm) = true :=
    Catalog.registered_default op
  unfold Collective.requested
  cases ModuleParams.algorithmName? params with
  | none => exact hdefault
  | some name =>
    dsimp only [Option.map_some]
    cases hid : Choice.idOf op.choices name with
    | error error => exact hdefault
    | ok id => exact Choice.registered_of_idOf hid

/-- Parsing module parameters gives the algorithm that they ask for. -/
theorem Module.value_parse (catalog : Catalog) (op : Collective) (params : String) :
    ((catalog.module op).parse params).value = op.requested params := by
  unfold Module.parse Collective.requested
  cases ModuleParams.algorithmName? params with
  | none => rfl
  | some name =>
    dsimp only [Option.map_some, Catalog.module]
    cases Choice.idOf op.choices name <;> rfl

/-- What is asked for can be made active. -/
theorem Catalog.activate_parse (catalog : Catalog) (op : Collective) (params : String) :
    catalog.activate op ((catalog.module op).parse params).value =
      .ok { active := Collective.update catalog.active op (op.requested params) } := by
  rw [Module.value_parse]
  exact activate_eq_ok_iff.mpr ⟨op.registered_requested params, rfl⟩

namespace SelectionContext

/-! ### Static contexts -/

/-- One selection cannot fail, and it changes at most the operation with its short name. -/
theorem value_selectStatic (catalog : Catalog) (name params : String) :
    (selectStatic catalog name params).run.value = .ok
      { active := fun op =>
          if op.shortName = name then op.requested params else catalog.active op } := by
  unfold selectStatic
  cases hop : Collective.ofShortName? name with
  | none =>
    simp only [Collective.ofShortName?_eq_none_iff.mp hop, if_false]
    rfl
  | some selected =>
    have hselected (op : Collective) : op.shortName = name ↔ op = selected := by
      rw [← Collective.ofShortName?_eq_some_iff, hop, Option.some_inj, eq_comm]
    have hparse : (liftM ((catalog.module selected).parse params) :
        ExceptT Error Logged AlgorithmId).run.value =
          .ok ((catalog.module selected).parse params).value := rfl
    dsimp only
    rw [Tuner.value_run_bind, hparse]
    dsimp only [bind, Except.bind]
    rw [Catalog.activate_parse]
    change Except.ok _ = Except.ok _
    congr 2
    funext op
    simp only [Collective.update, hselected]
    by_cases heq : op = selected
    · rw [if_pos heq, if_pos heq, heq]
    · rw [if_neg heq, if_neg heq]

/-- **Preparing a static context never fails. It makes active what is asked for in the operations
that are selected, and leaves all others as they were.** -/
theorem value_prepareStatic (selections : Dictionary String String) (catalog : Catalog) :
    (prepareStatic selections catalog).run.value = .ok
      { active := fun op =>
          match selections.get? op.shortName with
          | some params => op.requested params
          | none => catalog.active op } := by
  obtain ⟨entries, hsorted⟩ := selections
  unfold prepareStatic Dictionary.get?
  dsimp only
  induction entries generalizing catalog with
  | nil => rfl
  | cons entry rest ih =>
    obtain ⟨name, params⟩ := entry
    obtain ⟨hfirst, hrest⟩ := List.pairwise_cons.mp hsorted
    rw [List.foldlM_cons, Tuner.value_run_bind]
    dsimp only
    rw [value_selectStatic]
    change (rest.foldlM _ _ : ExceptT Error Logged Catalog).run.value = _
    rw [ih _ hrest]
    congr 2
    funext op
    rw [List.find?_cons]
    by_cases hname : op.shortName = name
    · subst hname
      -- The names are sorted, so no later selection is for the same operation.
      have hnone : rest.find? (fun entry => compare op.shortName entry.1 == .eq) = none := by
        rw [List.find?_eq_none]
        intro entry hentry hsame
        have hlt := hfirst entry hentry
        dsimp only at hlt
        rw [hlt] at hsame
        cases hsame
      simp [hnone]
    · have hne : (compare op.shortName name == .eq) = false := by
        rw [beq_eq_false_iff_ne]
        intro hsame
        exact hname (Std.LawfulEqOrd.eq_of_compare hsame)
      simp [hne, hname]

/-! ### Tuned contexts -/

/-- Among registered algorithms, none is found that is not valid. -/
theorem find?_unregistered {profile : Profile} (hregistered : profile.Registered) :
    (profile.ranges.find? fun range =>
      !(Choice.validate profile.collective.choices range.algorithm).toBool) = none := by
  rw [List.find?_eq_none]
  intro range hrange
  have hid := hregistered range hrange
  simp [Choice.validate, hid, Except.toBool, pure, Except.pure]

/-- A profile whose algorithms are registered is not skipped. -/
theorem value_addProfile {profile : Profile} (hregistered : profile.Registered)
    (table : ProfileTable) : (addProfile table profile).value = table.insert profile := by
  unfold addProfile
  dsimp only
  rw [find?_unregistered hregistered]
  dsimp only
  split <;> rfl

/-- The last profile for an operation. -/
def lastFor (profiles : List Profile) (op : Collective) : Option Profile :=
  (profiles.filter fun profile => profile.collective = op).getLast?

/-- The profile for an operation that loading a directory brings. -/
def loaded? (files : Files) (path : Option String) (op : Collective) : Option Profile :=
  match path.map fun path => (Profile.ofDirectory files path).run.value with
  | some (.ok profiles) => lastFor profiles op
  | _ => none

/-- Of several profiles for one operation the last one is kept. -/
theorem get?_value_foldlM_addProfile {profiles : List Profile}
    (hregistered : ∀ profile ∈ profiles, profile.Registered) (table : ProfileTable)
    (op : Collective) :
    (profiles.foldlM addProfile table : Logged ProfileTable).value.get? op =
      (lastFor profiles op).or (table.get? op) := by
  induction profiles generalizing table with
  | nil => rfl
  | cons profile rest ih =>
    have hrest : ∀ other ∈ rest, other.Registered :=
      fun other hother => hregistered other (List.mem_cons_of_mem _ hother)
    rw [List.foldlM_cons, Logged.value_bind, ih hrest,
      value_addProfile (hregistered profile List.mem_cons_self), ProfileTable.get?_insert, lastFor,
      lastFor, List.filter_cons]
    by_cases hop : profile.collective = op
    · have hdecide : decide (profile.collective = op) = true := decide_eq_true hop
      rw [if_pos hop.symm, if_pos hdecide, List.getLast?_cons, Option.or_some]
      cases (rest.filter fun profile => profile.collective = op).getLast? <;> rfl
    · have hdecide : ¬ decide (profile.collective = op) = true := by simpa using hop
      rw [if_neg (Ne.symm hop), if_neg hdecide]

/-- Only the directory decides whether the profiles can be loaded. -/
theorem value_prepareTuned (files : Files) (path : String) (table : ProfileTable) :
    (prepareTuned files (some path) table).run.value =
      (Profile.ofDirectory files path).run.value.map fun profiles =>
        (profiles.foldlM addProfile table : Logged ProfileTable).value := by
  unfold prepareTuned
  dsimp only
  rw [Tuner.value_run_bind]
  cases (Profile.ofDirectory files path).run.value <;> rfl

/-- What loading the profiles of a directory leaves in the table. -/
theorem get?_of_prepareTuned {files : Files} {path : Option String} {table after : ProfileTable}
    (hafter : (prepareTuned files path table).run.value = .ok after) (op : Collective) :
    after.get? op = (loaded? files path op).or (table.get? op) := by
  cases path with
  | none =>
    obtain rfl := Except.ok.inj hafter
    rfl
  | some path =>
    rw [value_prepareTuned] at hafter
    unfold loaded?
    dsimp only [Option.map_some]
    cases hprofiles : (Profile.ofDirectory files path).run.value with
    | error error =>
      rw [hprofiles] at hafter
      cases hafter
    | ok profiles =>
      rw [hprofiles] at hafter
      obtain rfl := Except.ok.inj hafter
      exact get?_value_foldlM_addProfile
        (fun _ hmem => Profile.registered_of_ofDirectory hprofiles hmem) table op

/-- A loaded profile is for its operation and has only registered algorithms. -/
theorem registered_of_loaded {files : Files} {path : Option String} {op : Collective}
    {profile : Profile} (hloaded : loaded? files path op = some profile) :
    profile.Registered ∧ profile.collective = op := by
  unfold loaded? at hloaded
  split at hloaded
  · next profiles hprofiles =>
    obtain ⟨path, -, hprofiles⟩ := Option.map_eq_some_iff.mp hprofiles
    obtain ⟨hmem, hop⟩ := List.mem_filter.mp (List.mem_of_getLast? hloaded)
    exact ⟨Profile.registered_of_ofDirectory hprofiles hmem, of_decide_eq_true hop⟩
  · cases hloaded

end SelectionContext

end CollectiveTuner
