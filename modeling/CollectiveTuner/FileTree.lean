import CollectiveTuner.Files

/-!
# Trees of files

A file tree lists files and directories by their path below a working directory. It answers
questions about a path the way a file system does, `.` and `..` included. The directories above
the working directory exist, but no name leads anywhere from there.
-/

namespace CollectiveTuner

/-- What is at a path of a file tree. -/
inductive FileNode
  | file (content : Bytes)
  | directory
  deriving DecidableEq, Repr

/-- The files and directories below a working directory, by the names on the way to them. A
directory on the way to a listed path need not be listed itself. -/
abbrev FileTree := List (List String × FileNode)

namespace FileTree

/-- The names in a path. -/
def components (path : String) : List String :=
  ((path.toList.splitOnP (· == '/')).filter fun name => !name.isEmpty).map String.ofList

/-- The longest name that a directory can hold, in bytes. -/
def maxNameBytes : Nat := 255

/-- The longest path, in bytes. -/
def maxPathBytes : Nat := 4095

/-- What is at exactly these names. -/
def node? (tree : FileTree) (names : List String) : Option FileNode :=
  if names.isEmpty then some .directory
  else
    match tree.lookup names with
    | some node => some node
    | none =>
      if tree.any fun (other, _) => names.isPrefixOf other then some .directory else none

/-- Where a path leads: to a place below the working directory, listed by the names on the way
to it, or to a directory above. -/
inductive Location
  | below (names : List String)
  | above
  deriving DecidableEq, Repr

/-- What is at a location. -/
def nodeAt? (tree : FileTree) : Location → Option FileNode
  | .below names => tree.node? names
  | .above => some .directory

/-- The directory that holds a location. -/
def Location.parent : Location → Location
  | .below [] => .above
  | .below names => .below names.dropLast
  | .above => .above

/-- The location of a name in the directory at a location. -/
def Location.child? (name : String) : Location → Option Location
  | .below names => some (.below (names ++ [name]))
  | .above => none

/-- Follows names from a location. -/
def follow (tree : FileTree) (here : Location) : List String → Except FileError Location
  | [] => pure here
  | name :: rest =>
    match tree.nodeAt? here with
    | none => throw .notFound
    | some (.file _) => throw .notADirectory
    | some .directory =>
      if name = "." then tree.follow here rest
      else if name = ".." then tree.follow here.parent rest
      else if maxNameBytes < name.utf8ByteSize then throw .nameTooLong
      else
        match here.child? name with
        | some there => tree.follow there rest
        | none => throw .notFound

/-- What is at a path, and where that is. A path that begins with `/` begins above. -/
def find (tree : FileTree) (path : String) : Except FileError (Location × FileNode) := do
  if path.toList.contains '\x00' then throw .nulInPath
  if maxPathBytes < path.utf8ByteSize then throw .nameTooLong
  if path.isEmpty then throw .notFound
  let start := if path.toList.head? = some '/' then .above else .below []
  let location ← tree.follow start (components path)
  match tree.nodeAt? location with
  | none => throw .notFound
  | some node =>
    if path.toList.getLast? = some '/' && node != .directory then throw .notADirectory
    pure (location, node)

/-- The bytes of the file at a path. -/
def read (tree : FileTree) (path : String) : Except FileError Bytes := do
  match ← tree.find path with
  | (_, .file content) => pure content
  | (_, .directory) => throw .isADirectory

/-- A path leads to a file. A path that is too long leads to none. -/
def isFile (tree : FileTree) (path : String) : Bool :=
  match tree.find path with
  | .ok (_, .file _) => true
  | _ => false

/-- The names in the directory at a location. -/
def namesIn (tree : FileTree) : Location → List String
  | .below names =>
    (tree.filterMap fun (other, _) =>
      if names.isPrefixOf other then (other.drop names.length).head? else none).eraseDups
  | .above => []

/-- The entries of the directory at a path. -/
def list (tree : FileTree) (path : String) : Except FileError (List DirectoryEntry) := do
  match ← tree.find path with
  | (_, .file _) => throw .notADirectory
  | (location, .directory) =>
    pure ((tree.namesIn location).map fun name =>
      { name, isFile := tree.isFile (Files.join path name) })

/-- The answers of a file tree. -/
def files (tree : FileTree) : Files where
  read := tree.read
  list := tree.list

end FileTree

end CollectiveTuner
