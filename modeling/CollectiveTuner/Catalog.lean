import CollectiveTuner.Catalog.Algorithm
import CollectiveTuner.Event
import CollectiveTuner.Text.Blank

/-!
# Modules and the catalog

A module is an operation with the algorithms to choose from and the one that is active. The
catalog holds one module for every operation. Users name an algorithm in the parameter text of
a module, either as `alg:<name>` or as a bare name.
-/

namespace CollectiveTuner

namespace Choice

/-- The identifier of the choice with this name. -/
def idOf (choices : List Choice) (name : String) : Except Error AlgorithmId :=
  match choices.find? fun choice => choice.name == name with
  | some choice => pure choice.id
  | none => throw (.invalidAlgorithmName name)

/-- The name of the choice with this identifier. -/
def nameOf (choices : List Choice) (id : AlgorithmId) : Except Error String :=
  match choices.find? fun choice => choice.id == id with
  | some choice => pure choice.name
  | none => throw (.invalidAlgorithmId id)

/-- Fails unless some choice has this identifier. -/
def validate (choices : List Choice) (id : AlgorithmId) : Except Error Unit :=
  if choices.any fun choice => choice.id == id then pure () else throw (.invalidAlgorithmId id)

/-- The name of a choice, or the number itself when no choice has it. -/
def displayName (choices : List Choice) (id : AlgorithmId) : String :=
  match nameOf choices id with
  | .ok name => name
  | .error _ => toString id

end Choice

namespace ModuleParams

/-- The items of a parameter text: what commas separate, trimmed, without the empty ones. -/
def items (params : List Char) : List (List Char) :=
  ((params.splitOnP (· == ',')).map Text.trim).filter fun item => !item.isEmpty

/-- The algorithm name among the items. The first item that begins with `alg:` decides;
without one it is the first item that has no colon. -/
def nameAmong (bare : Option (List Char)) : List (List Char) → Option (List Char)
  | [] => bare
  | item :: rest =>
    match Text.splitOnce (· == ':') item with
    | some (key, value) =>
      if key = ['a', 'l', 'g'] then some (Text.trim value) else nameAmong bare rest
    | none => nameAmong (bare.or (some item)) rest

/-- The algorithm that a parameter text names. -/
def algorithmName? (params : String) : Option String :=
  (nameAmong none (items params.toList)).map String.ofList

end ModuleParams

/-- An operation with the algorithms to choose from and the active one. -/
structure Module where
  /-- The operation. -/
  collective : Collective
  /-- The algorithms to choose from. -/
  choices : List Choice
  /-- The identifier of the active algorithm. -/
  active : AlgorithmId
  deriving DecidableEq, Repr

namespace Module

/-- A module whose default algorithm is active. -/
def ofChoices (collective : Collective) (choices : List Choice) : Module :=
  { collective, choices, active := defaultAlgorithm }

/-- The identifier of the algorithm that a parameter text names, the default when it names
none or one that the module does not have. -/
def parse (module : Module) (params : String) : Logged AlgorithmId := do
  match ModuleParams.algorithmName? params with
  | none =>
    report .warn "no algorithm named in module parameters, using default"
      [("module", .text module.collective.shortName), ("params", .text params)]
    pure defaultAlgorithm
  | some name =>
    match Choice.idOf module.choices name with
    | .ok id => pure id
    | .error error =>
      report .warn s!"{error.message}, using default"
        [("module", .text module.collective.shortName)]
      pure defaultAlgorithm

/-- Makes an algorithm of the module active. -/
def activate (module : Module) (id : AlgorithmId) : Except Error Module := do
  Choice.validate module.choices id
  pure { module with active := id }

/-- One line that describes the module in diagnostics. -/
def describe (module : Module) : String :=
  "Module \x7b op: " ++ module.collective.label ++ ", active: " ++ toString module.active ++ " \x7d"

end Module

/-- The active algorithm of every operation. -/
structure Catalog where
  /-- The identifier of the active algorithm. -/
  active : Collective → AlgorithmId

namespace Catalog

/-- The catalog in which every operation runs its default algorithm. -/
def default : Catalog where
  active _ := defaultAlgorithm

/-- The module of an operation. -/
def module (catalog : Catalog) (op : Collective) : Module :=
  { collective := op, choices := op.choices, active := catalog.active op }

/-- Makes an algorithm of one operation active. -/
def activate (catalog : Catalog) (op : Collective) (id : AlgorithmId) : Except Error Catalog := do
  let module ← (catalog.module op).activate id
  pure { active := Collective.update catalog.active op module.active }

/-- Just the registered identifiers can be made active, and nothing else of the catalog changes. -/
theorem activate_eq_ok_iff {catalog next : Catalog} {op : Collective} {id : AlgorithmId} :
    catalog.activate op id = .ok next ↔
      (op.choices.any fun choice => choice.id == id) = true ∧
        next = { active := Collective.update catalog.active op id } := by
  unfold activate Module.activate Choice.validate module
  cases op.choices.any fun choice => choice.id == id with
  | true => simp [bind, Except.bind, pure, Except.pure, eq_comm]
  | false => simp [bind, Except.bind, throw, throwThe, MonadExceptOf.throw]

/-- The active identifiers in table order. -/
def actives (catalog : Catalog) : List AlgorithmId :=
  Collective.all.map catalog.active

/-- The operation with this interface name. -/
def operationNamed (name : String) : Except Error Collective :=
  match Collective.ofName? name with
  | some op => pure op
  | none => throw (.unknownOperation name)

end Catalog

end CollectiveTuner
