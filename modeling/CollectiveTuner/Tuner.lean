import CollectiveTuner.Selection
import CollectiveTuner.Tuner.Recorder
import CollectiveTuner.Tuner.Request

/-!
# The tuner

A tuner serves the collective calls of one rank. For each call it selects an algorithm, runs
its decomposition, and runs the native operation instead when there is no decomposition or it
failed. Caller buffers are measured first: a rank whose buffer is too short takes part with a
stand-in, so its peers complete, and gets the error afterwards.
-/

namespace CollectiveTuner

/-- The tuner of one rank. -/
structure Tuner where
  /-- The place of the rank in its group. -/
  me : Member
  /-- The active algorithms. -/
  catalog : Catalog
  /-- Scratch space for decompositions. -/
  arena : Scratch.Arena
  /-- What selects algorithms. -/
  context : SelectionContext
  /-- The algorithms that ran, if they are recorded. -/
  recorder : Option Recorder
  /-- What the tuner was told. -/
  configuration : Configuration

namespace Tuner

/-- Reports an error event before failing with the same error. -/
def failing {α : Type} (me : Member) (activity : String) (result : ExceptT Error Logged α) :
    ExceptT Error Logged α := do
  match ← ExceptT.lift result.run with
  | .ok value => pure value
  | .error error =>
    report .error s!"{activity}: {error.message}" [("rank", .number me.rank)]
    throw error

/-- Starts the tuner of one rank. It fails when scratch space cannot be had or the context
cannot be prepared. Memory for the tables of profiles is taken to be there, which
`SelectionContext.prepareInPlace` does not. -/
def start (host : Host) (me : Member) (configuration : Configuration) :
    ExceptT Error Logged Tuner := do
  let messageBytes ← configuration.messageBytes
  let integerBytes ← configuration.integerBytes
  let arena ← failing me "cannot allocate scratch arena"
    (liftM (Scratch.Arena.allocate host.refusedBytes messageBytes integerBytes))
  let (context, catalog) ← failing me s!"cannot initialize {configuration.context.name} context"
    ((SelectionContext.ofConfiguration configuration).prepare host Catalog.default)
  let recorder :=
    if configuration.recordAlgorithms && me.rank == 0 then some Recorder.empty else none
  let shownMessageBytes ← configuration.messageBytes
  let shownIntegerBytes ← configuration.integerBytes
  report .info "tuner ready"
    [("rank", .number me.rank), ("size", .number me.size),
     ("context", .text configuration.context.name),
     ("msg_buffer_bytes", .number shownMessageBytes),
     ("int_buffer_bytes", .number shownIntegerBytes),
     ("recording", .flag recorder.isSome)]
  pure { me, catalog, arena, context, recorder, configuration }

/-- Makes an algorithm active. -/
def setAlgorithm (tuner : Tuner) (op : Collective) (id : AlgorithmId) : Except Error Tuner := do
  pure { tuner with catalog := ← tuner.catalog.activate op id }

/-- The algorithm for a call of `size` bytes: what the context chooses if it chooses a
registered one, and otherwise the active one. -/
def select (tuner : Tuner) (op : Collective) (size : Nat) : Logged AlgorithmId := do
  let module := tuner.catalog.module op
  let call : List (String × FieldValue) := [("op", .text op.name), ("msg_size", .number size)]
  match tuner.context.algorithmFor op size tuner.me.size with
  | .ok id =>
    match Choice.validate module.choices id with
    | .ok () =>
      report .trace "context selection" (call ++ [("alg", .number id)])
      pure id
    | .error error =>
      report .warn s!"{error.message}, using stored selection" call
      pure module.active
  | .error error =>
    report .trace s!"{error.message}, using stored selection"
      (call ++ [("alg", .number module.active)])
    pure module.active

/-- The algorithm with an identifier. An unknown one is reported. -/
def resolve (op : Collective) (id : AlgorithmId) : Logged (Option (Algorithm op)) := do
  let algorithm := Algorithm.ofId? op id
  if algorithm.isNone then
    report .warn "unknown algorithm id, running default"
      [("op", .text op.name), ("alg", .number id)]
  pure algorithm

/-- The algorithm that a call has settled on: `id` when its decomposition succeeded, and
otherwise the default, which then has to run. -/
def settle (op : Collective) (id : AlgorithmId) : Option (Except Error Unit) → Logged AlgorithmId
  | some (.ok ()) => pure id
  | some (.error error) => do
    report .debug s!"decomposition failed, falling back to default: {error.message}"
      [("op", .text op.name), ("alg", .number id)]
    pure defaultAlgorithm
  | none => pure defaultAlgorithm

/-- Records the algorithm of a call, if algorithms are recorded. -/
def record (tuner : Tuner) (op : Collective) (size : Nat) (id : AlgorithmId) : Tuner :=
  { tuner with recorder := tuner.recorder.map fun recorder => recorder.record op size id }

/-- What a call comes back with. -/
structure Outcome where
  /-- Whether the call succeeded. -/
  status : Except Error Unit
  /-- The caller's writable buffer after the call. -/
  output : Bytes
  /-- The tuner after the call. -/
  tuner : Tuner
  /-- The events reported during the call. -/
  events : List Event

/-- Runs a call with buffers that are long enough. -/
def dispatch (arithmetic : FloatArithmetic) (tuner : Tuner) (request : Request)
    (input output : Bytes) : Script Outcome := do
  let op := request.collective
  let selected := tuner.select op request.messageBytes
  let resolved := resolve op selected.value
  let decomposition? := resolved.value.bind
    (request.decomposition? arithmetic tuner.me tuner.configuration.minScatterChunk input)
  let workspace : Workspace := { arena := tuner.arena, output }
  let (attempt, workspace) ←
    match decomposition? with
    | some decomposition => do
      let (status, workspace) ← decomposition.run.run workspace
      pure (some status, workspace)
    | none => pure (none, workspace)
  let settled := settle op selected.value attempt
  let tuner := { tuner with arena := workspace.arena }
  let events := selected.events ++ resolved.events ++ settled.events
  let reply : Reply ←
    if settled.value = defaultAlgorithm then
      Script.call request.primitive input workspace.output
    else pure { status := .ok (), output := workspace.output }
  let tuner :=
    match reply.status with
    | .ok () => tuner.record op request.messageBytes settled.value
    | .error _ => tuner
  pure { status := reply.status, output := reply.output, tuner, events }

/-- The buffers that a call runs with. -/
structure Footing where
  /-- The input, or zeros in its place. -/
  input : Bytes
  /-- The output, or zeros in its place. -/
  output : Bytes
  /-- The output is not the caller's. -/
  outputStandsIn : Bool
  /-- The error for the first buffer that is too short. -/
  mismatch : Option Error

/-- The buffer to run with when `needed` bytes are needed: the caller's, or as many zeros. A
buffer that is too short is reported. -/
def standIn (op : Collective) (needed : Nat) (buffer : Bytes) : Logged (Bytes × Option Error) := do
  if needed ≤ buffer.length then pure (buffer, none)
  else
    report .warn "caller buffer too short, running with a stand-in"
      [("op", .text op.name), ("expected", .number needed), ("actual", .number buffer.length)]
    pure (List.replicate needed 0, some (.bufferSizeMismatch needed buffer.length))

/-- Measures the caller's buffers against what a call needs. -/
def measure (me : Member) (request : Request) (input output : Bytes) : Logged Footing := do
  let op := request.collective
  let (input, inputMismatch) ← standIn op (request.inputBytes me) input
  let (output, outputMismatch) ← standIn op (request.outputBytes me) output
  pure
    { input, output, outputStandsIn := outputMismatch.isSome,
      mismatch := inputMismatch.or outputMismatch }

/-- Serves one collective call. A root outside the group is refused before anything else. When
a buffer was too short, the call returns that error once it has run, and an output that was
too short is left as it was. -/
def perform (arithmetic : FloatArithmetic) (tuner : Tuner) (request : Request)
    (input output : Bytes) : Script Outcome := do
  match request.root?.filter fun root => tuner.me.size ≤ root with
  | some root =>
    pure { status := .error (.invalidRank root tuner.me.size), output, tuner, events := [] }
  | none =>
    let measured := measure tuner.me request input output
    let footing := measured.value
    let outcome ← tuner.dispatch arithmetic request footing.input footing.output
    let status :=
      match outcome.status, footing.mismatch with
      | .ok (), some error => .error error
      | status, _ => status
    pure
      { outcome with
        status
        output := if footing.outputStandsIn then output else outcome.output
        events := measured.events ++ outcome.events }

/-- The text that a tuner leaves behind: what it recorded and the settings it ran with. A
tuner that records nothing leaves no text. -/
def telemetry (tuner : Tuner) : String :=
  match tuner.recorder with
  | none => ""
  | some recorder =>
    let settings := tuner.configuration.settings.entries.map fun (key, value) =>
      s!"#@pgmpi config {key} {value}"
    String.join ((recorder.lines ++ settings).map fun line => line ++ "\n")

/-- One line that describes the tuner in diagnostics. -/
def describe (tuner : Tuner) (communicator : String) : String :=
  let kind :=
    match tuner.context.kind with
    | .static => "Static"
    | .tuned => "Tuned"
  "Tuner \x7b comm: " ++ communicator ++ ", context: " ++ kind ++ ", recording: " ++
    toString tuner.recorder.isSome ++ ", .. \x7d"

end Tuner

end CollectiveTuner
