import CollectiveTuner.Dictionary
import CollectiveTuner.Error
import CollectiveTuner.Event
import CollectiveTuner.Scratch.Arena
import CollectiveTuner.Text.Blank
import CollectiveTuner.Text.Line

/-!
# Settings

Settings are named texts. A settings text has one of them on each line, the key first and the
value after a blank; blank lines and lines that begin with `#` do not count. A line without a
value is reported and skipped.
-/

namespace CollectiveTuner

/-- The settings by key. -/
abbrev Settings := Dictionary String String

namespace Settings

/-- The key of the size of the message pool. -/
def messageBytesKey : String := "size_msg_buffer_bytes"

/-- The key of the size of the integer pool. -/
def integerBytesKey : String := "size_int_buffer_bytes"

/-- The settings before any source of settings is read. -/
def default : Settings :=
  (Dictionary.empty.insert messageBytesKey (toString Scratch.defaultMessageBytes)).insert
    integerBytesKey (toString Scratch.defaultIntegerBytes)

/-- What a line of a settings text says. -/
inductive LineContent
  | skipped
  | entry (key value : String)
  | faulty (content : String)
  deriving DecidableEq, Repr

/-- Reads one line. -/
def readLine (line : List Char) : LineContent :=
  let line := Text.trim line
  if line.isEmpty || line.head? = some '#' then .skipped
  else
    match Text.splitOnce Text.isBlank line with
    | some (key, value) =>
      let value := Text.trim value
      if value.isEmpty then .faulty (String.ofList line)
      else .entry (String.ofList key) (String.ofList value)
    | none => .faulty (String.ofList line)

/-- Adds what a line says to the settings. The line has the number `number` in its text. -/
def mergeLine (settings : Settings) (number : Nat) (line : List Char) : Logged Settings := do
  match readLine line with
  | .skipped => pure settings
  | .entry key value => pure (settings.insert key value)
  | .faulty content =>
    report .warn "faulty settings line" [("line", .number number), ("content", .text content)]
    pure settings

/-- Adds a settings text. Later lines win over earlier ones and over the settings before. -/
def merge (settings : Settings) (text : String) : Logged Settings :=
  (Text.lines text.toList).zipIdx.foldlM
    (fun settings (line, index) => mergeLine settings (index + 1) line) settings

/-- Adds the settings text in a file. -/
def mergeFile (settings : Settings) (files : Files) (path : String) :
    ExceptT Error Logged Settings := do
  match files.readText path with
  | .ok text => settings.merge text
  | .error cause => throw (.unreadableFile cause)

/-- The value of a key as a `read` value. A value that cannot be read is reported. -/
def getParsed {α : Type} (settings : Settings) (read : List Char → Option α) (key : String) :
    Logged (Option α) := do
  match settings.get? key with
  | none => pure none
  | some text =>
    match read text.toList with
    | some value => pure (some value)
    | none =>
      report .warn "unparsable setting, using default" [("key", .text key), ("value", .text text)]
      pure none

end Settings

end CollectiveTuner
