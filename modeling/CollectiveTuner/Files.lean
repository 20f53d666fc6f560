/-!
# What reading files yields

The library never touches a file system. It is given a `Files` value, which answers every
question about a path: the bytes of the file there, or the entries of the directory there.
-/

namespace CollectiveTuner

/-- The contents of buffers and files. -/
abbrev Bytes := List UInt8

/-- Why a path cannot be read. -/
inductive FileError
  | notFound
  | notADirectory
  | isADirectory
  | nameTooLong
  | nulInPath
  | notUtf8
  | other (text : String)
  deriving DecidableEq, Repr

/-- The text of a file error. -/
def FileError.message : FileError → String
  | notFound => "No such file or directory (os error 2)"
  | notADirectory => "Not a directory (os error 20)"
  | isADirectory => "Is a directory (os error 21)"
  | nameTooLong => "File name too long (os error 36)"
  | nulInPath => "file name contained an unexpected NUL byte"
  | notUtf8 => "stream did not contain valid UTF-8"
  | other text => text

/-- One entry of a directory. -/
structure DirectoryEntry where
  /-- The name of the entry inside its directory. -/
  name : String
  /-- Whether the path of the entry leads to a regular file. -/
  isFile : Bool
  deriving DecidableEq, Repr

/-- Answers to every question about files that a run may ask. -/
structure Files where
  /-- The bytes of the file at a path. -/
  read : String → Except FileError Bytes
  /-- The entries of the directory at a path, in no particular order. -/
  list : String → Except FileError (List DirectoryEntry)

namespace Files

/-- The text of the file at a path, which has to be UTF-8. -/
def readText (files : Files) (path : String) : Except FileError String := do
  let bytes ← files.read path
  match String.fromUTF8? (ByteArray.mk bytes.toArray) with
  | some text => pure text
  | none => throw .notUtf8

/-- The path of an entry `name` of the directory at `path`. -/
def join (path name : String) : String :=
  if path.isEmpty || path.toList.getLast? = some '/' then path ++ name else path ++ "/" ++ name

/-- The part of a file name after its last dot. A name that begins with its only dot has
no extension. -/
def extension? (name : String) : Option String :=
  let reversed := name.toList.reverse
  let tail := reversed.takeWhile (· != '.')
  let rest := reversed.drop (tail.length + 1)
  if tail.length = reversed.length || rest.isEmpty then none else some (String.ofList tail.reverse)

end Files

end CollectiveTuner
