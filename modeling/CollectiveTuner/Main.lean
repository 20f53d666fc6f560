import CollectiveTuner.Listing

/-!
# The listing command

Prints the catalog and, with a profile directory, the profiles in it. Reads the files that the
configuration names, hands their contents to `Listing.ofProcess`, and prints what that returns.
-/

namespace CollectiveTuner.Command

/-- The names of the environment variables that a configuration looks at. -/
def variableNames : List String :=
  ["PGMPI_CONTEXT", "PGMPI_CONFIG_FILE", "PGMPI_PROFILE_PATH", "PGMPI_RECORD_ALGORITHMS",
   "PGMPI_MIN_SCATTER_CHUNK"]

/-- The cause of a failed file operation. -/
def causeOf : IO.Error → FileError
  | .noFileOrDirectory .. => .notFound
  | .inappropriateType _ 20 _ => .notADirectory
  | .inappropriateType _ 21 _ => .isADirectory
  | error => .other (toString error)

/-- The environment of this process. -/
def environment : IO Environment := do
  let values ← variableNames.mapM fun name => do
    pure ((← IO.getEnv name).map fun value => (name, value))
  pure (values.filterMap id)

/-- The bytes of a file. -/
def readFile (path : String) : IO (Except FileError Bytes) := do
  try
    pure (.ok (← IO.FS.readBinFile path).toList)
  catch error => pure (.error (causeOf error))

/-- The entries of a directory. -/
def readEntries (path : String) : IO (Except FileError (List DirectoryEntry)) := do
  try
    let here : IO.FS.DirEntry := { root := path, fileName := "" }
    let entries ← here.root.readDir
    let entries ← entries.toList.mapM fun entry => do
      let isFile ← try pure ((← entry.path.metadata).type == .file) catch _ => pure false
      pure ({ name := entry.fileName, isFile } : DirectoryEntry)
    pure (.ok entries)
  catch error => pure (.error (causeOf error))

/-- The files that a run may ask for: the settings file and those of the profile directory. -/
def filesFor (configFile profilePath : Option String) : IO Files := do
  let directories ← profilePath.toList.mapM fun path => do
    pure (path, ← readEntries path)
  let profiles := directories.flatMap fun (path, entries) =>
    match entries with
    | .ok entries => (Profile.fileNames entries).map (Files.join path)
    | .error _ => []
  let contents ← (configFile.toList ++ profiles).mapM fun path => do
    pure (path, ← readFile path)
  pure
    { read := fun path => (contents.lookup path).getD (throw .notFound)
      list := fun path => (directories.lookup path).getD (throw .notFound) }

end CollectiveTuner.Command

open CollectiveTuner in
/-- Lists the catalog on standard output and reports problems on standard error. -/
def main (arguments : List String) : IO UInt32 := do
  let environment ← Command.environment
  let paths := (Configuration.ofSources environment (Options.ofArguments arguments).value)
  let files ← Command.filesFor paths.configFile paths.profilePath
  let listing := Listing.ofProcess files environment arguments
  for event in listing.events do
    if event.level.isShownAt .warn then
      IO.eprintln s!"{event.level.name} {event.message}"
  IO.print listing.value.text
  pure (if listing.value.status.toBool then 0 else 1)
