import CollectiveTuner.Collective
import CollectiveTuner.Datatype
import CollectiveTuner.Files

/-!
# Errors

`Error` lists the causes of failure, `Error.message` words each of them, and
`Error.isFatal` says which of them stop a tuner from starting.
-/

namespace CollectiveTuner

/-- The number by which an operation refers to one of its algorithms. -/
abbrev AlgorithmId := Int

/-- The algorithm that every operation has: its own implementation by the transport. -/
def defaultAlgorithm : AlgorithmId := 0

/-- Why something could not be done. -/
inductive Error
  | allocationFailure (pool : String) (bytes : Nat)
  | noSpaceLeft (pool : String) (slot requested available : Nat)
  | invalidAlgorithmId (id : AlgorithmId)
  | invalidAlgorithmName (name : String)
  | unknownOperation (name : String)
  | profileNotFound (op : Collective)
  | groupSizeMismatch (op : Collective) (recorded live : Nat)
  | rangeNotMatched (op : Collective) (size : Nat)
  | invalidMessageSize (size : Nat)
  | invalidSetting (key value : String)
  | selectionUnavailable
  | malformedProfile (path : String) (line : Nat) (reason : String)
  | profileDirectory (path : String) (cause : FileError)
  | unsupportedDatatype (dtype : Datatype) (op : String)
  | bufferSizeMismatch (expected actual : Nat)
  | invalidRank (rank groupSize : Nat)
  | transport (text : String) (cause : Option String)
  | collectiveFailed (operation : String) (rank : Nat) (reason : String)
  | unreadableFile (cause : FileError)
  deriving DecidableEq, Repr

namespace Error

/-- The text of an error. -/
def message : Error → String
  | allocationFailure pool bytes => s!"failed to allocate {bytes} bytes for the {pool} pool"
  | noSpaceLeft pool slot requested available =>
    s!"no space left in {pool} pool for slot {slot}: requested {requested} elements, " ++
      s!"{available} available"
  | invalidAlgorithmId id => s!"invalid algorithm id {id}"
  | invalidAlgorithmName name => s!"unknown algorithm name '{name}'"
  | unknownOperation name => s!"unknown collective operation '{name}'"
  | profileNotFound op => s!"no profile loaded for {op.name}"
  | groupSizeMismatch op recorded live =>
    s!"profile for {op.name} was recorded with {recorded} processes, group has {live}"
  | rangeNotMatched op size => s!"no range in the {op.name} profile covers {size} bytes"
  | invalidMessageSize size => s!"invalid message size {size}"
  | invalidSetting key value => s!"invalid value '{value}' for setting {key}"
  | selectionUnavailable => "selection context does not choose algorithms per call"
  | malformedProfile path line reason => s!"malformed profile {path}:{line}: {reason}"
  | profileDirectory path cause => s!"cannot read profile directory {path}: {cause.message}"
  | unsupportedDatatype dtype op =>
    s!"unsupported data type: {dtype.label} for operation {op}"
  | bufferSizeMismatch expected actual =>
    s!"buffer size mismatch: expected {expected} bytes, got {actual}"
  | invalidRank rank groupSize => s!"invalid rank {rank}: group size is {groupSize}"
  | transport text _ => s!"transport error: {text}"
  | collectiveFailed operation rank reason => s!"{operation} failed at rank {rank}: {reason}"
  | unreadableFile cause => s!"I/O error: {cause.message}"

/-- The text of the underlying error, for the errors that have one. -/
def source? : Error → Option String
  | profileDirectory _ cause | unreadableFile cause => some cause.message
  | transport _ cause => cause
  | _ => none

/-- Errors that a tuner cannot start with. -/
def isFatal : Error → Bool
  | allocationFailure .. | malformedProfile .. | profileDirectory .. => true
  | _ => false

end Error

end CollectiveTuner
