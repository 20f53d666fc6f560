import CollectiveTuner.Collective
import CollectiveTuner.Options
import CollectiveTuner.Proofs.Dictionary.Updates
import CollectiveTuner.Proofs.Text.Lines
import Mathlib

/-!
# The options among arguments

Every list of arguments gives one sequence of options with values. The last value given for an
option is the one that counts, and for each module the last text given for it.
-/

namespace CollectiveTuner.Options

/-! ### Single arguments -/

section Argument

variable {argument : String} {name : OptionName}

/-- A flag is its word behind two dashes. -/
theorem toList_flag (name : OptionName) : name.flag.toList = '-' :: '-' :: name.word.toList := by
  simp [OptionName.flag]

/-- Each option is found under its word. -/
theorem ofWord?_word (name : OptionName) : OptionName.ofWord? name.word = some name := by
  cases name <;> rfl

/-- No word of an option contains the sign that separates it from a value. -/
theorem ne_equals_of_mem_word : ∀ c ∈ name.word.toList, (c == '=') = false := by
  cases name <;> simp [OptionName.word]

/-- What an argument that begins with two dashes is split into. -/
theorem splitArgument_of_toList {body : List Char} (hlist : argument.toList = '-' :: '-' :: body) :
    splitArgument argument =
      match Text.splitOnce (· == '=') body with
      | some (word, value) =>
        (OptionName.ofWord? (String.ofList word)).map (·, some (String.ofList value))
      | none => (OptionName.ofWord? (String.ofList body)).map (·, none) := by
  unfold splitArgument
  split
  · next other hother =>
    obtain rfl : other = body := by simpa [hlist] using hother.symm
    cases Text.splitOnce (· == '=') other <;> rfl
  · next hnone => exact absurd hlist (hnone body)

/-- A flag alone is an option without its value. -/
theorem splitArgument_flag (name : OptionName) : splitArgument name.flag = some (name, none) := by
  rw [splitArgument_of_toList (toList_flag name),
    Text.splitOnce_eq_none_iff.mpr ne_equals_of_mem_word]
  simp [ofWord?_word]

/-- A flag and a value in one argument are split at the sign between them. -/
theorem splitArgument_inline (name : OptionName) (value : String) :
    splitArgument (name.flag ++ "=" ++ value) = some (name, some value) := by
  have hlist : (name.flag ++ "=" ++ value).toList =
      '-' :: '-' :: (name.word.toList ++ '=' :: value.toList) := by
    simp [toList_flag]
  rw [splitArgument_of_toList hlist, Text.splitOnce_append _ ne_equals_of_mem_word rfl]
  simp [ofWord?_word]

/-- Nothing else begins an option. -/
theorem eq_of_splitArgument {inline : Option String}
    (hsplit : splitArgument argument = some (name, inline)) :
    argument = inline.elim name.flag fun value => name.flag ++ "=" ++ value := by
  have hname {word : List Char} {name : OptionName}
      (hword : OptionName.ofWord? (String.ofList word) = some name) : word = name.word.toList := by
    have hequal : name.word = String.ofList word := by simpa using List.find?_some hword
    rw [hequal, String.toList_ofList]
  obtain ⟨body, hlist⟩ : ∃ body, argument.toList = '-' :: '-' :: body := by
    unfold splitArgument at hsplit
    split at hsplit
    · next body hlist => exact ⟨body, hlist⟩
    · cases hsplit
  rw [splitArgument_of_toList hlist] at hsplit
  apply String.toList_inj.mp
  rw [hlist]
  cases hvalue : Text.splitOnce (· == '=') body with
  | none =>
    rw [hvalue] at hsplit
    obtain ⟨found, hfound, heq⟩ := Option.map_eq_some_iff.mp hsplit
    obtain ⟨rfl, rfl⟩ := Prod.mk.inj heq
    rw [hname hfound]
    simp [toList_flag]
  | some parts =>
    obtain ⟨word, value⟩ := parts
    rw [hvalue] at hsplit
    obtain ⟨found, hfound, heq⟩ := Option.map_eq_some_iff.mp hsplit
    obtain ⟨rfl, rfl⟩ := Prod.mk.inj heq
    obtain ⟨c, hc, rfl, -⟩ := Text.exists_of_splitOnce hvalue
    rw [hname hfound, beq_iff_eq.mp hc]
    simp [toList_flag]

/-- The argument is left to the program: it is neither an option nor an option with its value. -/
def IsForeign (argument : String) : Prop :=
  ∀ name : OptionName, argument ≠ name.flag ∧
    ∀ value : String, argument ≠ name.flag ++ "=" ++ value

/-- The arguments that are no option are the foreign ones. -/
theorem splitArgument_eq_none_iff : splitArgument argument = none ↔ IsForeign argument := by
  constructor
  · intro hnone name
    refine ⟨?_, fun value => ?_⟩
    · rintro rfl
      cases (splitArgument_flag name).symm.trans hnone
    · rintro rfl
      cases (splitArgument_inline name value).symm.trans hnone
  · intro hforeign
    cases hsplit : splitArgument argument with
    | none => rfl
    | some found =>
      obtain ⟨name, inline⟩ := found
      have hargument := eq_of_splitArgument hsplit
      cases inline with
      | none => exact absurd hargument (hforeign name).1
      | some value => exact absurd hargument ((hforeign name).2 value)

end Argument

/-! ### Sequences of options -/

/-- The arguments give these options with these values, in this order. A value stands in the same
argument after `=`, or it is the whole next argument, whatever that looks like. An option at the
end without a value is not given. All other arguments are somebody else's. -/
inductive Given : List String → List (OptionName × String) → Prop
  | nil : Given [] []
  | inline (name : OptionName) (value : String) {rest : List String}
      {options : List (OptionName × String)} (hrest : Given rest options) :
      Given ((name.flag ++ "=" ++ value) :: rest) ((name, value) :: options)
  | separate (name : OptionName) (value : String) {rest : List String}
      {options : List (OptionName × String)} (hrest : Given rest options) :
      Given (name.flag :: value :: rest) ((name, value) :: options)
  | unfinished (name : OptionName) : Given [name.flag] []
  | other {argument : String} {rest : List String} {options : List (OptionName × String)}
      (hflag : ∀ name : OptionName, argument ≠ name.flag)
      (hinline : ∀ (name : OptionName) (value : String), argument ≠ name.flag ++ "=" ++ value)
      (hrest : Given rest options) : Given (argument :: rest) options

/-- The options that are given, from left to right. -/
def given : List String → List (OptionName × String)
  | [] => []
  | argument :: rest =>
    match splitArgument argument with
    | none => given rest
    | some (name, some value) => (name, value) :: given rest
    | some (name, none) =>
      match rest with
      | [] => []
      | value :: rest => (name, value) :: given rest

/-- The option that the arguments end on, while it waits for its value. -/
def pending : List String → Option OptionName
  | [] => none
  | argument :: rest =>
    match splitArgument argument with
    | none => pending rest
    | some (_, some _) => pending rest
    | some (name, none) =>
      match rest with
      | [] => some name
      | _ :: rest => pending rest

/-- Arguments are read in steps: an option with its value in one argument or in two, an option at
the end, or an argument that is no option. -/
@[elab_as_elim]
theorem arguments_induction {motive : List String → Prop} (nil : motive [])
    (inline : ∀ (name : OptionName) (value : String) (rest : List String), motive rest →
      motive ((name.flag ++ "=" ++ value) :: rest))
    (separate : ∀ (name : OptionName) (value : String) (rest : List String), motive rest →
      motive (name.flag :: value :: rest))
    (unfinished : ∀ name : OptionName, motive [name.flag])
    (other : ∀ (argument : String) (rest : List String), splitArgument argument = none →
      motive rest → motive (argument :: rest)) (arguments : List String) : motive arguments := by
  fun_induction given arguments with
  | case1 => exact nil
  | case2 argument rest hnone ih => exact other argument rest hnone ih
  | case3 argument rest name value hsome ih =>
    obtain rfl := eq_of_splitArgument hsome
    exact inline name value rest ih
  | case4 argument name hsome =>
    obtain rfl := eq_of_splitArgument hsome
    exact unfinished name
  | case5 argument name hsome value rest ih =>
    obtain rfl := eq_of_splitArgument hsome
    exact separate name value rest ih

section Steps

variable (name : OptionName) (value : String) {argument : String} (rest : List String)

/-- What is given by a list of arguments depends on what its first one is. -/
theorem given_cons (argument : String) : given (argument :: rest) =
    match splitArgument argument with
    | none => given rest
    | some (name, some value) => (name, value) :: given rest
    | some (name, none) =>
      match rest with
      | [] => []
      | value :: rest => (name, value) :: given rest := by
  rw [given]

/-- What is pending after a list of arguments depends on what its first one is. -/
theorem pending_cons (argument : String) : pending (argument :: rest) =
    match splitArgument argument with
    | none => pending rest
    | some (_, some _) => pending rest
    | some (name, none) =>
      match rest with
      | [] => some name
      | _ :: rest => pending rest := by
  rw [pending]

/-- An option with its value in the same argument is given. -/
theorem given_inline :
    given ((name.flag ++ "=" ++ value) :: rest) = (name, value) :: given rest := by
  rw [given_cons, splitArgument_inline]

/-- An option with its value in the next argument is given. -/
theorem given_separate : given (name.flag :: value :: rest) = (name, value) :: given rest := by
  rw [given_cons, splitArgument_flag]

/-- An option without its value is not given. -/
theorem given_flag : given [name.flag] = [] := by
  rw [given_cons, splitArgument_flag]

/-- A foreign argument gives nothing. -/
theorem given_other (hnone : splitArgument argument = none) :
    given (argument :: rest) = given rest := by
  rw [given_cons, hnone]

/-- Nothing is pending behind an option with its value in the same argument. -/
theorem pending_inline : pending ((name.flag ++ "=" ++ value) :: rest) = pending rest := by
  rw [pending_cons, splitArgument_inline]

/-- Nothing is pending behind an option with its value in the next argument. -/
theorem pending_separate : pending (name.flag :: value :: rest) = pending rest := by
  rw [pending_cons, splitArgument_flag]

/-- An option without its value is pending. -/
theorem pending_flag : pending [name.flag] = some name := by
  rw [pending_cons, splitArgument_flag]

/-- A foreign argument leaves nothing pending. -/
theorem pending_other (hnone : splitArgument argument = none) :
    pending (argument :: rest) = pending rest := by
  rw [pending_cons, hnone]

end Steps

/-- The arguments give exactly one sequence of options. -/
theorem given_iff {arguments : List String} {options : List (OptionName × String)} :
    Given arguments options ↔ options = given arguments := by
  constructor
  · intro hgiven
    induction hgiven with
    | nil => rfl
    | inline name value _ ih => rw [given_inline, ih]
    | separate name value _ ih => rw [given_separate, ih]
    | unfinished name => exact (given_flag name).symm
    | @other argument rest options hflag hinline _ ih =>
      have hnone := splitArgument_eq_none_iff.mpr fun name => ⟨hflag name, hinline name⟩
      rw [given_other rest hnone, ih]
  · rintro rfl
    induction arguments using arguments_induction with
    | nil => exact .nil
    | inline name value rest ih =>
      rw [given_inline]
      exact .inline name value ih
    | separate name value rest ih =>
      rw [given_separate]
      exact .separate name value ih
    | unfinished name =>
      rw [given_flag]
      exact .unfinished name
    | other argument rest hnone ih =>
      have hforeign := splitArgument_eq_none_iff.mp hnone
      rw [given_other rest hnone]
      exact .other (fun name => (hforeign name).1) (fun name => (hforeign name).2) ih

/-- Scanning assigns what is given, from left to right. -/
theorem value_scan (options : Options) (arguments : List String) :
    (scan options none arguments).value =
      (given arguments).foldl (fun options option => (options.assign option.1 option.2).value)
        options := by
  induction arguments using arguments_induction generalizing options with
  | nil => rfl
  | inline name value rest ih =>
    rw [given_inline, List.foldl_cons, ← ih]
    simp only [scan, splitArgument_inline, Logged.value_bind]
  | separate name value rest ih =>
    rw [given_separate, List.foldl_cons, ← ih]
    simp only [scan, splitArgument_flag, Logged.value_bind]
  | unfinished name =>
    rw [given_flag]
    simp only [scan, splitArgument_flag]
    rfl
  | other argument rest hnone ih =>
    rw [given_other rest hnone, ← ih]
    simp only [scan, hnone]

/-! ### Arguments one after another -/

section Pending

variable {arguments first : List String} {name : OptionName} {value : String}

/-- Behind arguments that leave no option waiting the options are read afresh. -/
theorem given_append (hfirst : pending first = none) (second : List String) :
    given (first ++ second) = given first ++ given second := by
  induction first using arguments_induction with
  | nil => rfl
  | inline name value rest ih =>
    rw [pending_inline] at hfirst
    rw [List.cons_append, given_inline, given_inline, ih hfirst, List.cons_append]
  | separate name value rest ih =>
    rw [pending_separate] at hfirst
    rw [List.cons_append, List.cons_append, given_separate, given_separate, ih hfirst,
      List.cons_append]
  | unfinished name =>
    rw [pending_flag] at hfirst
    cases hfirst
  | other argument rest hnone ih =>
    rw [pending_other rest hnone] at hfirst
    rw [List.cons_append, given_other _ hnone, given_other _ hnone, ih hfirst]

/-- When nothing is pending, what follows decides on its own what is. -/
theorem pending_append (hfirst : pending first = none) (second : List String) :
    pending (first ++ second) = pending second := by
  induction first using arguments_induction with
  | nil => rfl
  | inline name value rest ih =>
    rw [pending_inline] at hfirst
    rw [List.cons_append, pending_inline, ih hfirst]
  | separate name value rest ih =>
    rw [pending_separate] at hfirst
    rw [List.cons_append, List.cons_append, pending_separate, ih hfirst]
  | unfinished name =>
    rw [pending_flag] at hfirst
    cases hfirst
  | other argument rest hnone ih =>
    rw [pending_other rest hnone] at hfirst
    rw [List.cons_append, pending_other _ hnone, ih hfirst]

/-- Only the option at the very end can be left without a value. -/
theorem pending_eq_some_iff : pending arguments = some name ↔
    ∃ before, arguments = before ++ [name.flag] ∧ pending before = none := by
  constructor
  · intro hpending
    induction arguments using arguments_induction with
    | nil => cases hpending
    | inline other value rest ih =>
      rw [pending_inline] at hpending
      obtain ⟨before, rfl, hbefore⟩ := ih hpending
      exact ⟨_ :: before, rfl, by rwa [pending_inline]⟩
    | separate other value rest ih =>
      rw [pending_separate] at hpending
      obtain ⟨before, rfl, hbefore⟩ := ih hpending
      exact ⟨_ :: value :: before, rfl, by rwa [pending_separate]⟩
    | unfinished other =>
      rw [pending_flag] at hpending
      obtain rfl := Option.some.inj hpending
      exact ⟨[], rfl, rfl⟩
    | other argument rest hnone ih =>
      rw [pending_other rest hnone] at hpending
      obtain ⟨before, rfl, hbefore⟩ := ih hpending
      exact ⟨argument :: before, rfl, by rwa [pending_other before hnone]⟩
  · rintro ⟨before, rfl, hbefore⟩
    rw [pending_append hbefore, pending_flag]

/-- An option with its value stands in one argument or in two. -/
theorem exists_of_mem_given (hmem : (name, value) ∈ given arguments) :
    ∃ before after, pending before = none ∧
      (arguments = before ++ (name.flag ++ "=" ++ value) :: after ∨
        arguments = before ++ name.flag :: value :: after) := by
  induction arguments using arguments_induction with
  | nil => cases hmem
  | inline other text rest ih =>
    rw [given_inline] at hmem
    rcases List.mem_cons.mp hmem with heq | hmem
    · obtain ⟨rfl, rfl⟩ := Prod.mk.inj heq
      exact ⟨[], rest, rfl, .inl rfl⟩
    · obtain ⟨before, after, hbefore, hargs⟩ := ih hmem
      exact ⟨_ :: before, after, by rwa [pending_inline],
        hargs.imp (congrArg (_ :: ·)) (congrArg (_ :: ·))⟩
  | separate other text rest ih =>
    rw [given_separate] at hmem
    rcases List.mem_cons.mp hmem with heq | hmem
    · obtain ⟨rfl, rfl⟩ := Prod.mk.inj heq
      exact ⟨[], rest, rfl, .inr rfl⟩
    · obtain ⟨before, after, hbefore, hargs⟩ := ih hmem
      exact ⟨_ :: text :: before, after, by rwa [pending_separate],
        hargs.imp (congrArg (_ :: text :: ·)) (congrArg (_ :: text :: ·))⟩
  | unfinished other =>
    rw [given_flag] at hmem
    cases hmem
  | other argument rest hnone ih =>
    rw [given_other rest hnone] at hmem
    obtain ⟨before, after, hbefore, hargs⟩ := ih hmem
    exact ⟨argument :: before, after, by rwa [pending_other before hnone],
      hargs.imp (congrArg (argument :: ·)) (congrArg (argument :: ·))⟩

end Pending

/-! ### What is reported of the arguments -/

/-- The value selects a module: it has an equals sign, and before the first one stands something
that is not blank. -/
def isModuleValue (value : String) : Bool :=
  value.toList.contains '=' &&
    (value.toList.takeWhile (· != '=')).any fun c => !Text.isBlank c

/-- What is reported of a module option with another value. -/
def malformedModule (value : String) : Event :=
  ⟨.warn, "expected --module <prefix>=<params>", [("value", .text value)]⟩

/-- What is reported of an option without a value. -/
def missingValue (name : OptionName) : Event :=
  ⟨.warn, "missing value", [("option", .text name.flag)]⟩

/-- The option has a value that it cannot use. -/
def isMalformed (option : OptionName × String) : Bool :=
  option.1 = .module && !isModuleValue option.2

/-- A module value has a name that is not blank before its first equality sign. -/
theorem isModuleValue_eq (value : String) : isModuleValue value =
    match Text.splitOnce (· == '=') value.toList with
    | some (name, _) => !(Text.trim name).isEmpty
    | none => false := by
  unfold isModuleValue
  cases hsplit : Text.splitOnce (· == '=') value.toList with
  | none =>
    have hnone : value.toList.contains '=' = false := by
      rw [List.contains_eq_any_beq, List.any_eq_false]
      intro c hc hequals
      obtain rfl := beq_iff_eq.mp hequals
      simpa using Text.splitOnce_eq_none_iff.mp hsplit '=' hc
    rw [hnone, Bool.false_and]
  | some parts =>
    obtain ⟨name, params⟩ := parts
    obtain ⟨c, hc, hvalue, hname⟩ := Text.exists_of_splitOnce hsplit
    obtain rfl := beq_iff_eq.mp hc
    have hbefore : (name ++ '=' :: params).takeWhile (· != '=') = name := by
      rw [List.takeWhile_append_of_pos fun c hc => by simpa using hname c hc]
      simp
    have hblank : (name.any fun c => !Text.isBlank c) = !(Text.trim name).isEmpty := by
      rw [Bool.eq_iff_iff, List.any_eq_true, Bool.not_eq_true', List.isEmpty_eq_false_iff, Ne,
        Text.trim_eq_nil_iff]
      push Not
      simp
    rw [hvalue, hbefore, hblank]
    simp

/-- A module option with another value changes nothing and is reported. -/
theorem addModule_of_not_isModuleValue (options : Options) {value : String}
    (hvalue : isModuleValue value = false) :
    options.addModule value = ⟨options, [malformedModule value]⟩ := by
  rw [isModuleValue_eq] at hvalue
  unfold addModule addModule.malformed
  cases hsplit : Text.splitOnce (· == '=') value.toList with
  | none => rfl
  | some parts =>
    rw [hsplit, Bool.not_eq_false'] at hvalue
    dsimp only
    rw [if_pos hvalue]
    rfl

/-- Nothing is reported about a module value. -/
theorem events_addModule_of_isModuleValue (options : Options) {value : String}
    (hvalue : isModuleValue value = true) : (options.addModule value).events = [] := by
  rw [isModuleValue_eq] at hvalue
  unfold addModule
  cases hsplit : Text.splitOnce (· == '=') value.toList with
  | none =>
    rw [hsplit] at hvalue
    cases hvalue
  | some parts =>
    rw [hsplit, Bool.not_eq_true'] at hvalue
    dsimp only
    rw [hvalue]
    rfl

/-- An option with a value that it cannot use changes nothing and is reported. -/
theorem assign_of_isMalformed (options : Options) {option : OptionName × String}
    (hmalformed : isMalformed option = true) :
    options.assign option.1 option.2 = ⟨options, [malformedModule option.2]⟩ := by
  obtain ⟨name, value⟩ := option
  obtain ⟨hname, hvalue⟩ : name = .module ∧ isModuleValue value = false := by
    simpa [isMalformed] using hmalformed
  subst hname
  exact addModule_of_not_isModuleValue options hvalue

/-- The only thing to report about an option is a malformed module value. -/
theorem events_assign (options : Options) (option : OptionName × String) :
    (options.assign option.1 option.2).events =
      if isMalformed option then [malformedModule option.2] else [] := by
  by_cases hmalformed : isMalformed option = true
  · rw [if_pos hmalformed, assign_of_isMalformed options hmalformed]
  · rw [if_neg hmalformed]
    obtain ⟨name, value⟩ := option
    cases name with
    | module =>
      have hvalue : isModuleValue value = true := by simpa [isMalformed] using hmalformed
      exact events_addModule_of_isModuleValue options hvalue
    | config => rfl
    | profilePath => rfl

/-- Scanning reports the values that cannot be used, and an option that is left waiting. -/
theorem events_scan (options : Options) (arguments : List String) :
    (scan options none arguments).events =
      ((given arguments).filter isMalformed).map (fun option => malformedModule option.2) ++
        (pending arguments).toList.map missingValue := by
  induction arguments using arguments_induction generalizing options with
  | nil => rfl
  | inline name value rest ih =>
    have hassign := events_assign options (name, value)
    dsimp only at hassign
    rw [given_inline, pending_inline, List.filter_cons]
    simp only [scan, splitArgument_inline, Logged.events_bind, hassign, ih]
    split <;> rfl
  | separate name value rest ih =>
    have hassign := events_assign options (name, value)
    dsimp only at hassign
    rw [given_separate, pending_separate, List.filter_cons]
    simp only [scan, splitArgument_flag, Logged.events_bind, hassign, ih]
    split <;> rfl
  | unfinished name =>
    rw [given_flag, pending_flag]
    simp only [scan, splitArgument_flag]
    rfl
  | other argument rest hnone ih =>
    rw [given_other rest hnone, pending_other rest hnone, ← ih options]
    simp only [scan, hnone]

/-! ### What is left of the options -/

/-- The value that is given for an option. -/
def valueFor (name : OptionName) (option : OptionName × String) : Option String :=
  if option.1 = name then some option.2 else none

/-- The last value that is given for an option. -/
def lastValue (options : List (OptionName × String)) (name : OptionName) : Option String :=
  (options.filterMap (valueFor name)).getLast?

/-- The parameters that are given for the module of an operation: what follows the first `=` in the
value of a module option, if the short name of the operation stands before it. -/
def paramsFor (op : Collective) (option : OptionName × String) : Option String :=
  (valueFor .module option).bind fun value =>
    match Text.splitOnce (· == '=') value.toList with
    | some (name, params) =>
      if String.ofList (Text.trim name) = op.shortName then some (String.ofList (Text.trim params))
      else none
    | none => none

/-- The last parameters that are given for the module of an operation. -/
def lastParams (options : List (OptionName × String)) (op : Collective) : Option String :=
  (options.filterMap (paramsFor op)).getLast?

section Assign

variable (options : Options) (option : OptionName × String)

/-- A module option changes the modules only. -/
theorem value_addModule (value : String) :
    ∃ modules, (options.addModule value).value = { options with modules } := by
  unfold addModule addModule.malformed
  split
  · dsimp only
    split <;> exact ⟨_, rfl⟩
  · exact ⟨_, rfl⟩

/-- The profile path is the one that the option gives, if it gives one. -/
theorem profilePath_assign : (options.assign option.1 option.2).value.profilePath =
    (valueFor .profilePath option).or options.profilePath := by
  obtain ⟨name, value⟩ := option
  cases name with
  | module =>
    obtain ⟨modules, hmodules⟩ := options.value_addModule value
    rw [assign, hmodules]
    rfl
  | config => rfl
  | profilePath => rfl

/-- The settings file is the one that the option gives, if it gives one. -/
theorem configFile_assign : (options.assign option.1 option.2).value.configFile =
    (valueFor .config option).or options.configFile := by
  obtain ⟨name, value⟩ := option
  cases name with
  | module =>
    obtain ⟨modules, hmodules⟩ := options.value_addModule value
    rw [assign, hmodules]
    rfl
  | config => rfl
  | profilePath => rfl

/-- The parameters for an operation are those that the option gives, if it gives some. -/
theorem modules_assign (op : Collective) :
    (options.assign option.1 option.2).value.modules.get? op.shortName =
      (paramsFor op option).or (options.modules.get? op.shortName) := by
  obtain ⟨name, value⟩ := option
  cases name with
  | module =>
    have hvalue : valueFor .module (.module, value) = some value := rfl
    simp only [assign, paramsFor, hvalue, Option.bind_some]
    unfold addModule addModule.malformed
    cases Text.splitOnce (· == '=') value.toList with
    | none => rfl
    | some parts =>
      obtain ⟨name, params⟩ := parts
      dsimp only
      by_cases hempty : (Text.trim name).isEmpty = true
      · have hother : String.ofList (Text.trim name) ≠ op.shortName := by
          rw [List.isEmpty_iff.mp hempty]
          cases op <;> decide
        rw [if_pos hempty, if_neg hother]
        rfl
      · rw [if_neg hempty]
        simp only [Logged.value_pure, Dictionary.get?_insert, Std.LawfulEqOrd.compare_eq_iff_eq,
          eq_comm (a := op.shortName)]
        split <;> rfl
  | config => rfl
  | profilePath => rfl

end Assign

/-- For every option the last value counts. -/
theorem fields_ofArguments (arguments : List String) :
    (ofArguments arguments).value.profilePath = lastValue (given arguments) .profilePath ∧
      (ofArguments arguments).value.configFile = lastValue (given arguments) .config ∧
      ∀ op : Collective, (ofArguments arguments).value.modules.get? op.shortName =
        lastParams (given arguments) op := by
  rw [ofArguments, value_scan]
  refine ⟨?_, ?_, fun op => ?_⟩
  · rw [foldl_eq_getLast? Options.profilePath profilePath_assign]
    exact Option.or_none
  · rw [foldl_eq_getLast? Options.configFile configFile_assign]
    exact Option.or_none
  · rw [foldl_eq_getLast? (fun options => options.modules.get? op.shortName)
      fun options option => modules_assign options option op]
    exact Option.or_none

end CollectiveTuner.Options
