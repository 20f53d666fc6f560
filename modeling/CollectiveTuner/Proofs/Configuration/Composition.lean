import CollectiveTuner.Configuration
import CollectiveTuner.Proofs.Options.Arguments

/-!
# Arguments in parts

Where no option waits for its value, arguments can be cut in two. Reading the parts and taking them
over one after the other does what the arguments do as a whole. In such a place it does not matter
whether an option and its value are one argument or two, and an argument that is no option counts
for nothing.
-/

namespace CollectiveTuner

namespace Options

/-- Arguments that give the same options, and that leave the same one waiting, are read alike. -/
theorem ofArguments_congr {first second : List String} (hgiven : given first = given second)
    (hpending : pending first = pending second) : ofArguments first = ofArguments second := by
  have hvalue : (ofArguments first).value = (ofArguments second).value := by
    rw [ofArguments, ofArguments, value_scan, value_scan, hgiven]
  have hevents : (ofArguments first).events = (ofArguments second).events := by
    rw [ofArguments, ofArguments, events_scan, events_scan, hgiven, hpending]
  exact congrArg₂ Logged.mk hvalue hevents

/-- The module that a value selects, with its parameters. -/
def moduleEntry? (value : String) : Option (String × String) :=
  match Text.splitOnce (· == '=') value.toList with
  | some (name, params) =>
    if (Text.trim name).isEmpty then none
    else some (String.ofList (Text.trim name), String.ofList (Text.trim params))
  | none => none

/-- A module option adds its entry when it has the form of one, and otherwise nothing. -/
theorem value_addModule_eq (options : Options) (value : String) :
    (options.addModule value).value =
      match moduleEntry? value with
      | some entry => { options with modules := options.modules.insert entry.1 entry.2 }
      | none => options := by
  unfold addModule moduleEntry? addModule.malformed
  cases Text.splitOnce (· == '=') value.toList with
  | none => rfl
  | some parts =>
    obtain ⟨name, params⟩ := parts
    dsimp only
    by_cases hempty : (Text.trim name).isEmpty = true
    · rw [if_pos hempty, if_pos hempty]
      rfl
    · rw [if_neg hempty, if_neg hempty]
      rfl

end Options

namespace Configuration

open Options

/-- The configuration with one option taken over. -/
def withOption (configuration : Configuration) (option : OptionName × String) : Configuration :=
  configuration.applyOptions (Options.empty.assign option.1 option.2).value

/-- Applying no options changes nothing. -/
theorem applyOptions_empty (configuration : Configuration) :
    configuration.applyOptions Options.empty = configuration := rfl

/-- An option that is assigned last is taken over last. -/
theorem applyOptions_assign (configuration : Configuration) (options : Options)
    (option : OptionName × String) :
    configuration.applyOptions (options.assign option.1 option.2).value =
      (configuration.applyOptions options).withOption option := by
  obtain ⟨name, value⟩ := option
  unfold withOption
  cases name with
  | module =>
    simp only [assign, value_addModule_eq]
    cases moduleEntry? value with
    | none => rfl
    | some entry =>
      simp only [applyOptions, Dictionary.insertAll_insert]
      rfl
  | config => rfl
  | profilePath => rfl

/-- Options are taken over one at a time. -/
theorem applyOptions_foldl (configuration : Configuration) (options : Options)
    (given : List (OptionName × String)) :
    configuration.applyOptions
        (given.foldl (fun options option => (options.assign option.1 option.2).value) options) =
      given.foldl withOption (configuration.applyOptions options) := by
  induction given generalizing options with
  | nil => rfl
  | cons option rest ih => rw [List.foldl_cons, List.foldl_cons, ih, applyOptions_assign]

/-- Applying the options of a list of arguments is applying each given option in turn. -/
theorem applyOptions_ofArguments (configuration : Configuration) (arguments : List String) :
    configuration.applyOptions (ofArguments arguments).value =
      (given arguments).foldl withOption configuration := by
  rw [ofArguments, value_scan, applyOptions_foldl, applyOptions_empty]

/-- **Arguments can be read in parts.** Let some arguments not end with an option that waits for
its value. Reading them with other arguments behind them and taking the options over does the same
to every configuration as reading and taking over the two parts one after the other, and the same
is reported. Between the two parts, an option may be joined to its value by an equals sign or be
followed by it, whatever the value is, and an argument that is no option may be left out: all the
same is read and reported. -/
theorem arguments_compose {before : List String} (hbefore : pending before = none)
    (after : List String) :
    (∀ configuration : Configuration,
      configuration.applyOptions (ofArguments (before ++ after)).value =
        (configuration.applyOptions (ofArguments before).value).applyOptions
          (ofArguments after).value) ∧
      (ofArguments (before ++ after)).events =
        (ofArguments before).events ++ (ofArguments after).events ∧
      (∀ (name : OptionName) (value : String),
        ofArguments (before ++ (name.flag ++ "=" ++ value) :: after) =
          ofArguments (before ++ name.flag :: value :: after)) ∧
      ∀ argument : String, IsForeign argument →
        ofArguments (before ++ argument :: after) = ofArguments (before ++ after) := by
  refine ⟨fun configuration => ?parts, ?reports, fun name value => ?joined,
    fun argument hforeign => ?foreign⟩
  case parts =>
    simp only [applyOptions_ofArguments, given_append hbefore, List.foldl_append]
  case reports =>
    simp only [ofArguments, events_scan, given_append hbefore, pending_append hbefore, hbefore,
      List.filter_append, List.map_append, Option.toList_none, List.map_nil, List.append_nil,
      List.append_assoc]
  case joined =>
    apply ofArguments_congr
    · rw [given_append hbefore, given_append hbefore, given_inline, given_separate]
    · rw [pending_append hbefore, pending_append hbefore, pending_inline, pending_separate]
  case foreign =>
    have hnone := splitArgument_eq_none_iff.mpr hforeign
    apply ofArguments_congr
    · rw [given_append hbefore, given_append hbefore, given_other after hnone]
    · rw [pending_append hbefore, pending_append hbefore, pending_other after hnone]

/-- The settings file is named like an option, and a module option has a value that selects nothing.
Both are values all the same. -/
theorem arguments_compose_swallowed :
    let before := ["-n", "--config", "--ppath", "--module", "x"]
    pending before = none ∧
      Configuration.default.applyOptions (ofArguments (before ++ ["--ppath=q", "--module"])).value =
        (Configuration.default.applyOptions (ofArguments before).value).applyOptions
          (ofArguments ["--ppath=q", "--module"]).value ∧
      ofArguments (before ++ ["--ppath=--module", "y"]) =
        ofArguments (before ++ ["--ppath", "--module", "y"]) ∧
      IsForeign "--modules" ∧
      ofArguments (before ++ ["--modules", "y"]) = ofArguments (before ++ ["y"]) := by
  intro before
  have hbefore : pending before = none := by decide +kernel
  have hforeign : IsForeign "--modules" := splitArgument_eq_none_iff.mp (by decide +kernel)
  obtain ⟨hparts, -, -⟩ := arguments_compose hbefore ["--ppath=q", "--module"]
  obtain ⟨-, -, hjoined, hleft⟩ := arguments_compose hbefore ["y"]
  exact ⟨hbefore, hparts _, hjoined .profilePath "--module", hforeign, hleft _ hforeign⟩

end Configuration

end CollectiveTuner
