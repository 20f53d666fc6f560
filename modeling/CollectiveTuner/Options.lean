import CollectiveTuner.Dictionary
import CollectiveTuner.Event
import CollectiveTuner.Text.Blank

/-!
# Command-line options

The tuner recognises three options among a program's arguments, each written `--option=value`
or `--option value`. All other arguments are left to the program.
-/

namespace CollectiveTuner

/-- An option of the tuner. -/
inductive OptionName
  | module
  | config
  | profilePath
  deriving DecidableEq, Repr

namespace OptionName

/-- The word that introduces the option. -/
def word : OptionName → String
  | module => "module"
  | config => "config"
  | profilePath => "ppath"

/-- The option as an argument. -/
def flag (name : OptionName) : String :=
  "--" ++ name.word

/-- The option that a word introduces. -/
def ofWord? (word : String) : Option OptionName :=
  [module, config, profilePath].find? fun name => name.word == word

end OptionName

/-- What the arguments select. -/
structure Options where
  /-- Parameter texts by the short name of an operation. -/
  modules : Dictionary String String
  /-- The settings file. -/
  configFile : Option String
  /-- The profile directory. -/
  profilePath : Option String

namespace Options

/-- The options before any argument is read. -/
def empty : Options where
  modules := Dictionary.empty
  configFile := none
  profilePath := none

/-- The option that an argument begins, with the value after `=` if there is one. -/
def splitArgument (argument : String) : Option (OptionName × Option String) :=
  match argument.toList with
  | '-' :: '-' :: body =>
    let (word, value) :=
      match Text.splitOnce (· == '=') body with
      | some (word, value) => (word, some (String.ofList value))
      | none => (body, none)
    (OptionName.ofWord? (String.ofList word)).map fun name => (name, value)
  | _ => none

/-- Selects a module by a value of the form `<short name>=<parameters>`. -/
def addModule (options : Options) (value : String) : Logged Options := do
  match Text.splitOnce (· == '=') value.toList with
  | some (name, params) =>
    let name := Text.trim name
    if name.isEmpty then malformed
    else
      pure { options with
        modules := options.modules.insert (String.ofList name) (String.ofList (Text.trim params)) }
  | none => malformed
where
  /-- Reports a value of another form. -/
  malformed : Logged Options := do
    report .warn "expected --module <prefix>=<params>" [("value", .text value)]
    pure options

/-- Gives an option its value. -/
def assign (options : Options) (name : OptionName) (value : String) : Logged Options :=
  match name with
  | .module => options.addModule value
  | .config => pure { options with configFile := some value }
  | .profilePath => pure { options with profilePath := some value }

/-- Reads arguments from left to right. `waiting` is an option whose value is the next
argument, whatever that looks like. -/
def scan (options : Options) (waiting : Option OptionName) : List String → Logged Options
  | [] => do
    if let some name := waiting then
      report .warn "missing value" [("option", .text name.flag)]
    pure options
  | argument :: rest =>
    match waiting with
    | some name => do
      let options ← options.assign name argument
      scan options none rest
    | none =>
      match splitArgument argument with
      | none => scan options none rest
      | some (name, none) => scan options (some name) rest
      | some (name, some value) => do
        let options ← options.assign name value
        scan options none rest

/-- The options among a program's arguments. -/
def ofArguments (arguments : List String) : Logged Options :=
  scan empty none arguments

end Options

end CollectiveTuner
