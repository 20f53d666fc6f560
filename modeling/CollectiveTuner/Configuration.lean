import CollectiveTuner.Options
import CollectiveTuner.Settings
import CollectiveTuner.Text.Number

/-!
# Configuration

A configuration starts from defaults. Environment variables override these, then command-line
options, then the settings file that either of them names. A value that cannot be used is
reported where the configuration has a text for it, and the earlier value stays.
-/

namespace CollectiveTuner

/-- How algorithms are selected: once per operation, or for each call by its message size. -/
inductive ContextKind
  | static
  | tuned
  deriving DecidableEq, Repr

namespace ContextKind

/-- The name of a kind. -/
def name : ContextKind → String
  | static => "static"
  | tuned => "tuned"

/-- The kind with this name, whatever the case of its ASCII letters and the blanks around. -/
def ofText (text : String) : Except Error ContextKind :=
  let word := (Text.trim text.toList).map Char.toLower
  if word = static.name.toList then pure static
  else if word = tuned.name.toList then pure tuned
  else throw (.invalidSetting "context" text)

end ContextKind

/-- The environment variables of a process. -/
abbrev Environment := List (String × String)

/-- The value of a variable. -/
def Environment.get? (environment : Environment) (name : String) : Option String :=
  environment.lookup name

/-- Everything that a tuner can be told. -/
structure Configuration where
  /-- How algorithms are selected. -/
  context : ContextKind
  /-- Parameter texts by the short name of an operation. -/
  modules : Dictionary String String
  /-- The settings file. -/
  configFile : Option String
  /-- The profile directory. -/
  profilePath : Option String
  /-- Whether rank 0 records which algorithms ran. -/
  recordAlgorithms : Bool
  /-- The least number of elements that a round-robin share grows by. -/
  minScatterChunk : Nat
  /-- The settings. -/
  settings : Settings

namespace Configuration

/-- The configuration before anything is read. -/
def default : Configuration where
  context := .static
  modules := Dictionary.empty
  configFile := none
  profilePath := none
  recordAlgorithms := false
  minScatterChunk := 4
  settings := Settings.default

/-- The values of `PGMPI_RECORD_ALGORITHMS` that turn recording on. -/
def recordingWords : List String := ["1", "true", "yes"]

/-- Takes over the environment variables but the selection kind. -/
def applyEnvironment (configuration : Configuration) (environment : Environment) :
    Configuration where
  context := configuration.context
  modules := configuration.modules
  configFile := (environment.get? "PGMPI_CONFIG_FILE").or configuration.configFile
  profilePath := (environment.get? "PGMPI_PROFILE_PATH").or configuration.profilePath
  recordAlgorithms :=
    match environment.get? "PGMPI_RECORD_ALGORITHMS" with
    | some text => recordingWords.contains (String.ofList (Text.trim text.toList))
    | none => configuration.recordAlgorithms
  minScatterChunk :=
    match (environment.get? "PGMPI_MIN_SCATTER_CHUNK").bind fun text =>
        Text.unsigned? 64 text.toList with
    | some chunk => max chunk 1
    | none => configuration.minScatterChunk
  settings := configuration.settings

/-- Takes over command-line options. -/
def applyOptions (configuration : Configuration) (options : Options) : Configuration :=
  { configuration with
    modules := configuration.modules.insertAll options.modules.entries
    configFile := options.configFile.or configuration.configFile
    profilePath := options.profilePath.or configuration.profilePath }

/-- Adds the settings of the settings file, if one is named. -/
def loadSettingsFile (configuration : Configuration) (files : Files) : Logged Configuration := do
  match configuration.configFile with
  | none => pure configuration
  | some path =>
    match ← (configuration.settings.mergeFile files path).run with
    | .ok settings => pure { configuration with settings }
    | .error error =>
      report .warn s!"cannot read settings file: {error.message}" [("path", .text path)]
      pure configuration

/-- The selection kind that the environment asks for. -/
def contextFrom (environment : Environment) : Logged (Option ContextKind) := do
  match environment.get? "PGMPI_CONTEXT" with
  | none => pure none
  | some text =>
    match ContextKind.ofText text with
    | .ok kind => pure (some kind)
    | .error error =>
      report .warn error.message []
      pure none

/-- The configuration from the environment and the options, before the settings file is read and
without the selection kind that the environment may ask for. A profile directory selects the
tuned kind. -/
def ofSources (environment : Environment) (options : Options) : Configuration :=
  let configuration := (default.applyEnvironment environment).applyOptions options
  { configuration with
    context := if configuration.profilePath.isSome then .tuned else .static }

/-- The configuration of a process. -/
def ofProcess (files : Files) (environment : Environment) (arguments : List String) :
    Logged Configuration := do
  let kind ← contextFrom environment
  let options ← Options.ofArguments arguments
  let configuration := ofSources environment options
  { configuration with context := kind.getD configuration.context }.loadSettingsFile files

/-- The size of the message pool. -/
def messageBytes (configuration : Configuration) : Logged Nat := do
  let size ← configuration.settings.getParsed (Text.unsigned? 64) Settings.messageBytesKey
  pure (size.getD Scratch.defaultMessageBytes)

/-- The size of the integer pool. -/
def integerBytes (configuration : Configuration) : Logged Nat := do
  let size ← configuration.settings.getParsed (Text.unsigned? 64) Settings.integerBytesKey
  pure (size.getD Scratch.defaultIntegerBytes)

/-- Selects an algorithm for the operation with a short name. -/
def withModule (configuration : Configuration) (name algorithm : String) : Configuration :=
  { configuration with modules := configuration.modules.insert name s!"alg:{algorithm}" }

end Configuration

end CollectiveTuner
