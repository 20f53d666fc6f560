import CollectiveTuner.Configuration
import CollectiveTuner.Machine
import CollectiveTuner.Profile.Reader

/-!
# Selection contexts

A context decides which algorithm an operation runs. The static one makes algorithms active
once, from the users' module parameters. The tuned one looks the algorithm of each call up in
the profiles of a directory.
-/

namespace CollectiveTuner

/-- A way of selecting algorithms. -/
inductive SelectionContext
  | static (selections : Dictionary String String)
  | tuned (path : Option String) (table : ProfileTable)

namespace SelectionContext

/-- The kind of a context. -/
def kind : SelectionContext → ContextKind
  | static _ => .static
  | tuned _ _ => .tuned

/-- Makes the algorithm active that one selection names. -/
def selectStatic (catalog : Catalog) (name params : String) : ExceptT Error Logged Catalog := do
  match Collective.ofShortName? name with
  | none =>
    report .warn "no collective module with this prefix, ignoring" [("module", .text name)]
    pure catalog
  | some op =>
    let id ← (catalog.module op).parse params
    let catalog ←
      match catalog.activate op id with
      | .ok catalog => pure catalog
      | .error error =>
        report .warn s!"{error.message}, using default" [("module", .text name)]
        catalog.activate op defaultAlgorithm
    report .debug "static selection"
      [("module", .text name), ("alg", .number (catalog.active op))]
    pure catalog

/-- Makes the selected algorithms active, in the order of the short names. -/
def prepareStatic (selections : Dictionary String String) (catalog : Catalog) :
    ExceptT Error Logged Catalog :=
  selections.entries.foldlM (fun catalog (name, params) => selectStatic catalog name params)
    catalog

/-- Adds a profile to a table. A profile with an unknown algorithm is skipped. -/
def addProfile (table : ProfileTable) (profile : Profile) : Logged ProfileTable := do
  let op := profile.collective
  match profile.ranges.find? fun range => !(Choice.validate op.choices range.algorithm).toBool with
  | some range =>
    report .warn "profile references an unknown algorithm, skipping it"
      [("op", .text op.name), ("alg", .number range.algorithm)]
    pure table
  | none =>
    if (table.get? op).isSome then
      report .warn "several profiles for one operation, keeping the last" [("op", .text op.name)]
    pure (table.insert profile)

/-- Loads the profiles of the directory into the table. -/
def prepareTuned (files : Files) (path : Option String) (table : ProfileTable) :
    ExceptT Error Logged ProfileTable := do
  match path with
  | none =>
    report .debug "no profile path configured, tuned lookups will fall back" []
    pure table
  | some path =>
    let profiles ← Profile.ofDirectory files path
    let table ← (profiles.foldlM addProfile table : Logged ProfileTable)
    report .info "loaded tuning profiles"
      [("path", .text path), ("profiles", .number table.size)]
    pure table

/-- Gets a context ready for selecting. -/
def prepare (files : Files) (context : SelectionContext) (catalog : Catalog) :
    ExceptT Error Logged (SelectionContext × Catalog) := do
  match context with
  | static selections => pure (static selections, ← prepareStatic selections catalog)
  | tuned path table => pure (tuned path (← prepareTuned files path table), catalog)

/-- A computation that works on a context and the catalog in place. What they hold when it fails
or stops is left behind. -/
abbrev Initializer := ExceptT Error (OptionT (StateT (SelectionContext × Catalog) Logged))

namespace Initializer

/-- What a computation on a context and the catalog comes to, if it does not stop, and what it
leaves behind. -/
def runOn {α : Type} (action : Initializer α) (state : SelectionContext × Catalog) :
    Logged (Option (Except Error α) × (SelectionContext × Catalog)) :=
  action.run.run.run state

/-- Runs a computation that touches neither the context nor the catalog. -/
def attempt {α : Type} (action : OptionT Logged (Except Error α)) : Initializer α :=
  ExceptT.mk (OptionT.mk (StateT.lift action.run))

/-- Makes the algorithm active that one selection names. -/
def follow (name params : String) : Initializer Unit := do
  let (context, catalog) ← get
  let catalog ← attempt (OptionT.lift (selectStatic catalog name params).run)
  set (context, catalog)

/-- Puts a profile into the table of a tuned context. -/
def store (profile : Profile) : Initializer Unit := do
  let (context, catalog) ← get
  match context with
  | static _ => pure ()
  | tuned path table => set (tuned path (← addProfile table profile), catalog)

end Initializer

/-- Gets a context ready in place. All profiles are read before the first one is stored. It stops
where there is no memory for a table of a profile. -/
def prepareInPlace (host : Host) : Initializer Unit := do
  match (← get).1 with
  | static selections =>
    selections.entries.forM fun (name, params) => Initializer.follow name params
  | tuned none _ => report .debug "no profile path configured, tuned lookups will fall back" []
  | tuned (some path) _ =>
    let profiles ← Initializer.attempt (Profile.ofDirectoryOn host path).run
    profiles.forM Initializer.store
    if let tuned _ table := (← get).1 then
      report .info "loaded tuning profiles"
        [("path", .text path), ("profiles", .number table.size)]

/-- The algorithm that the context chooses for one call of `size` bytes in a group. -/
def algorithmFor (context : SelectionContext) (op : Collective) (size groupSize : Nat) :
    Except Error AlgorithmId :=
  match context with
  | static _ => throw .selectionUnavailable
  | tuned _ table =>
    if size = 0 then throw (.invalidMessageSize size)
    else
      match table.get? op with
      | none => throw (.profileNotFound op)
      | some profile =>
        if profile.groupSize ≠ groupSize then
          throw (.groupSizeMismatch op profile.groupSize groupSize)
        else profile.algorithmFor size

/-- The context that a configuration asks for, not yet prepared. -/
def ofConfiguration (configuration : Configuration) : SelectionContext :=
  match configuration.context with
  | .static => static configuration.modules
  | .tuned => tuned configuration.profilePath ProfileTable.empty

end SelectionContext

end CollectiveTuner
