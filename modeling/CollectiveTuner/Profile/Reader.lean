import CollectiveTuner.Catalog
import CollectiveTuner.Machine
import CollectiveTuner.Profile
import CollectiveTuner.Text.Line
import CollectiveTuner.Text.Number

/-!
# Reading profiles

A profile text names an operation and a group size, then a table of aliases for algorithms,
then a table of ranges that refer to the aliases. Each item stands on a line of its own; blank
lines and lines that begin with `#` do not count. An alias for an unknown algorithm is dropped
with a warning, and so is a range with an unknown alias. Everything else that departs from the
format is a fault at a line.

Memory for a table is taken as soon as its length is known, before any of its lines is read. On a
machine, reading stops without a result where there is no memory for it. The definitions that end in
`With` are shared by the reader that always gets its memory and by the reader of a machine.
-/

namespace CollectiveTuner.Profile

/-- A line that counts: its number, from 1, and its words. -/
structure TextLine where
  /-- The number of the line in the text. -/
  number : Nat
  /-- The blank-free parts of the line. It has at least one. -/
  words : List String
  deriving DecidableEq, Repr

/-- What a profile line is expected to hold. -/
inductive Item
  | operationName
  | groupSize
  | aliasCount
  | aliasLine
  | rangeCount
  | rangeLine
  | rangeStart
  | rangeEnd
  deriving DecidableEq, Repr

/-- The name of an item in messages. -/
def Item.name : Item → String
  | operationName => "operation name"
  | groupSize => "group size"
  | aliasCount => "alias count"
  | aliasLine => "alias line"
  | rangeCount => "range count"
  | rangeLine => "range line"
  | rangeStart => "range start"
  | rangeEnd => "range end"

/-- How a profile text departs from the format. -/
inductive FaultCause
  | endOfText (expected : Item)
  | missing (expected : Item)
  | unknownOperation (name : String)
  | zeroGroupSize
  | zeroRangeCount
  | shortAliasLine
  | shortRangeLine
  | reversedRange (start stop : Nat)
  deriving DecidableEq, Repr

/-- The text of a cause. -/
def FaultCause.message : FaultCause → String
  | endOfText expected => s!"unexpected end of file, expected {expected.name}"
  | missing expected => s!"expected {expected.name}"
  | unknownOperation name => (Error.unknownOperation name).message
  | zeroGroupSize => "group size must be positive"
  | zeroRangeCount => "range count must be positive"
  | shortAliasLine => "expected '<alias> <algorithm>'"
  | shortRangeLine => "expected '<start> <end> <alias>'"
  | reversedRange start stop => s!"range start {start} exceeds end {stop}"

/-- A departure from the format at a line. -/
structure Fault where
  /-- The number of the line. -/
  line : Nat
  /-- What is wrong there. -/
  cause : FaultCause
  deriving DecidableEq, Repr

/-- The lines of a text that count. -/
def significantLines (text : String) : List TextLine :=
  (Text.lines text.toList).zipIdx.filterMap fun (line, index) =>
    let line := Text.trim line
    if line.isEmpty || line.head? = some '#' then none
    else some { number := index + 1, words := (Text.words line).map String.ofList }

/-- Where reading has got to. -/
structure Cursor where
  /-- The lines not read yet. -/
  rest : List TextLine
  /-- The number of the line read last, or zero. -/
  last : Nat

/-- A part of the reader. -/
abbrev Reader := StateT Cursor (ExceptT Fault Logged)

namespace Reader

/-- Fails at a line. -/
def failAt {α : Type} (line : Nat) (cause : FaultCause) : Reader α :=
  StateT.lift (throw { line, cause })

/-- The next line, which should hold `expected`. -/
def nextLine (expected : Item) : Reader TextLine := do
  let cursor ← get
  match cursor.rest with
  | [] => failAt (cursor.last + 1) (.endOfText expected)
  | line :: rest =>
    set ({ rest, last := line.number } : Cursor)
    pure line

/-- An unsigned number of at most `bits` bits in a word of a line. -/
def number (bits line : Nat) (word : Option String) (expected : Item) : Reader Nat :=
  match word.bind fun word => Text.unsigned? bits word.toList with
  | some value => pure value
  | none => failAt line (.missing expected)

/-- A line that begins with a number of at most `bits` bits. -/
def nextNumber (bits : Nat) (expected : Item) : Reader Nat := do
  let line ← nextLine expected
  number bits line.number line.words.head? expected

/-- Reports a warning about a line. -/
def warnAt (path : String) (line : Nat) (message : String) : Reader Unit :=
  StateT.lift (ExceptT.lift
    (report .warn message [("profile", .text path), ("line", .number line)]))

/-- Reads `count` items one after another and keeps those that are not dropped. -/
def repeated {α : Type} (item : Reader (Option α)) : Nat → Reader (List α)
  | 0 => pure []
  | count + 1 => do
    let first ← item
    let rest ← repeated item count
    pure (first.toList ++ rest)

/-- A line that begins with the name of an operation. -/
def operation : Reader Collective := do
  let line ← nextLine .operationName
  let name := line.words.head?.getD ""
  match Collective.ofName? name with
  | some op => pure op
  | none => failAt line.number (.unknownOperation name)

/-- A line that begins with a number of at most `bits` bits other than zero. -/
def nextPositive (bits : Nat) (expected : Item) (zero : FaultCause) : Reader Nat := do
  let value ← nextNumber bits expected
  if value = 0 then failAt (← get).last zero
  pure value

/-- A line of the alias table. -/
def aliasLine (path : String) (choices : List Choice) :
    Reader (Option (String × AlgorithmId)) := do
  let line ← nextLine .aliasLine
  match line.words with
  | name :: algorithm :: _ =>
    match Choice.idOf choices algorithm with
    | .ok id => pure (some (name, id))
    | .error error =>
      warnAt path line.number s!"{error.message}, dropping alias '{name}'"
      pure none
  | _ => failAt line.number .shortAliasLine

/-- The algorithm that an alias stands for. The last line that gives it decides. -/
def resolveAlias (aliases : List (String × AlgorithmId)) (name : String) : Option AlgorithmId :=
  (aliases.reverse.find? fun entry => entry.1 == name).map Prod.snd

/-- A line of the range table. -/
def rangeLine (path : String) (aliases : List (String × AlgorithmId)) :
    Reader (Option SizeRange) := do
  let line ← nextLine .rangeLine
  match line.words with
  | startWord :: stopWord :: name :: _ => do
    let start ← number 64 line.number (some startWord) .rangeStart
    let stop ← number 64 line.number (some stopWord) .rangeEnd
    if stop < start then failAt line.number (.reversedRange start stop)
    match resolveAlias aliases name with
    | some algorithm => pure (some { start, stop, algorithm })
    | none =>
      warnAt path line.number s!"unknown alias '{name}', dropping range {start}..={stop}"
      pure none
  | _ => failAt line.number .shortRangeLine

end Reader

/-! ### Memory for tables -/

/-- A table of a profile. -/
inductive Table
  | aliases
  | ranges
  deriving DecidableEq, Repr

namespace Table

/-- The bytes of an entry. An alias refers to its name with two words, a range has two sizes, and
either comes with an algorithm. -/
def entryBytes : Nat := 24

/-- The bytes that a table of so many entries takes. -/
def bytes (host : Host) (entries : Nat) : Table → Nat
  | aliases => host.hashTableBytes entries entryBytes
  | ranges => entries * entryBytes

/-- There is memory for a table of so many entries. An empty table takes none. -/
def Fits (table : Table) (host : Host) (entries : Nat) : Prop :=
  entries = 0 ∨ table.bytes host entries < host.refusedBytes

instance (table : Table) (host : Host) (entries : Nat) : Decidable (table.Fits host entries) :=
  inferInstanceAs (Decidable (_ ∨ _))

/-- Takes the memory for a table, or stops where there is none. -/
def allocate (host : Host) (table : Table) (entries : Nat) : OptionT Logged Unit :=
  if table.Fits host entries then pure () else failure

end Table

/-! ### Whole profiles -/

/-- Reports lines that come after a profile, and ranges of it that overlap. -/
def reportRest (path : String) (profile : Profile) (trailing : Nat) : Logged Unit := do
  if trailing ≠ 0 then
    report .debug "ignoring lines after the range table"
      [("profile", .text path), ("trailing", .number trailing)]
  profile.overlappingRanges.forM fun (first, second) =>
    report .warn s!"ranges {first} and {second} overlap, the earlier one wins"
      [("profile", .text path)]

section

variable {m : Type → Type} [Monad m] [MonadLiftT Logged m]

/-- A part of the reader where more can happen than reports. -/
instance : MonadLift Reader (StateT Cursor (ExceptT Fault m)) where
  monadLift reader := fun cursor => ExceptT.mk (liftM (reader.run cursor).run)

/-- A whole profile, where memory for its tables is taken in this way. -/
def Reader.profileWith (allocate : Table → Nat → m Unit) (path : String) :
    StateT Cursor (ExceptT Fault m) Profile := do
  let collective ← operation
  let groupSize ← nextPositive 32 .groupSize .zeroGroupSize
  let aliasCount ← nextNumber 64 .aliasCount
  allocate .aliases aliasCount
  let aliases ← repeated (aliasLine path collective.choices) aliasCount
  let rangeCount ← nextPositive 64 .rangeCount .zeroRangeCount
  allocate .ranges rangeCount
  let ranges ← repeated (rangeLine path aliases) rangeCount
  pure { collective, groupSize, ranges }

/-- Reads a profile with this reader. The path is used in reports only. -/
def readWith (profile : StateT Cursor (ExceptT Fault m) Profile) (path text : String) :
    ExceptT Fault m Profile := do
  let (profile, cursor) ← profile.run { rest := significantLines text, last := 0 }
  reportRest path profile cursor.rest.length
  pure profile

/-- The fault of a reading as an error. -/
def withErrors {α : Type} (path : String) : ExceptT Fault m α → ExceptT Error m α :=
  ExceptT.adapt fun fault => .malformedProfile path fault.line fault.cause.message

/-- Reads the profile in a file whose text is read in this way. -/
def ofFileWith (ofText : String → String → ExceptT Error m Profile) (files : Files)
    (path : String) : ExceptT Error m Profile := do
  match files.readText path with
  | .ok text => ofText path text
  | .error cause => throw (.unreadableFile cause)

end

/-- A whole profile. -/
def Reader.profile (path : String) : Reader Profile :=
  profileWith (fun _ _ => pure ()) path

/-- Reads a profile. -/
def read (path text : String) : ExceptT Fault Logged Profile :=
  readWith (Reader.profile path) path text

/-- Reads a profile, with its faults as errors. -/
def ofText (path text : String) : ExceptT Error Logged Profile :=
  withErrors path (read path text)

/-- Reads the profile in a file. -/
def ofFile (files : Files) (path : String) : ExceptT Error Logged Profile :=
  ofFileWith ofText files path

/-- A whole profile on a machine. -/
def Reader.profileOn (host : Host) (path : String) :
    StateT Cursor (ExceptT Fault (OptionT Logged)) Profile :=
  profileWith (Table.allocate host) path

/-- Reads a profile on a machine, with its faults as errors. -/
def ofTextOn (host : Host) (path text : String) : ExceptT Error (OptionT Logged) Profile :=
  withErrors path (readWith (Reader.profileOn host path) path text)

/-- Reads the profile in a file of a machine. -/
def ofFileOn (host : Host) (path : String) : ExceptT Error (OptionT Logged) Profile :=
  ofFileWith (ofTextOn host) host path

/-- The extension of profile files in a profile directory. -/
def fileExtension : String := "prf"

/-- The names of the profile files among the entries of a directory, ascending. -/
def fileNames (entries : List DirectoryEntry) : List String :=
  let names := (entries.filter fun entry =>
    entry.isFile && Files.extension? entry.name == some fileExtension).map (·.name)
  names.mergeSort (fun a b => decide (a ≤ b))

/-- Reads the profiles of a directory, in the order of their file names. The first one that
cannot be read decides. -/
def ofDirectoryWith {m : Type → Type} [Monad m] [MonadLiftT Logged m]
    (ofFile : String → ExceptT Error m Profile) (files : Files) (path : String) :
    ExceptT Error m (List Profile) := do
  match files.list path with
  | .error cause => throw (.profileDirectory path cause)
  | .ok entries =>
    (fileNames entries).mapM fun name => do
      let filePath := Files.join path name
      report .debug "loading profile" [("profile", .text filePath)]
      ofFile filePath

/-- Reads the profiles of a directory. -/
def ofDirectory (files : Files) (path : String) : ExceptT Error Logged (List Profile) :=
  ofDirectoryWith (ofFile files) files path

/-- Reads the profiles of a directory of a machine. -/
def ofDirectoryOn (host : Host) (path : String) : ExceptT Error (OptionT Logged) (List Profile) :=
  ofDirectoryWith (ofFileOn host) host path

end CollectiveTuner.Profile
