import CollectiveTuner.Configuration
import CollectiveTuner.Profile.Reader

/-!
# Listing the catalog

The listing names every operation with its algorithms, one algorithm to a line, and then shows
the profiles of the profile directory. It stops at a profile that cannot be read, with what it
has listed up to there.
-/

namespace CollectiveTuner.Listing

/-- The first line of a listing. -/
def header : String := "cliname;mpiname;algname;rooted"

/-- The lines of one operation. -/
def moduleLines (op : Collective) : List String :=
  op.choices.map fun choice =>
    ";".intercalate [op.shortName, op.name, choice.name, if op.isRooted then "1" else "0"]

/-- The lines of one profile. -/
def profileLines (profile : Profile) : List String :=
  ["", s!"# {profile.collective.name} nprocs={profile.groupSize}"] ++
    profile.ranges.map fun range =>
      let name := Choice.displayName profile.collective.choices range.algorithm
      s!"{range.start} {range.stop} {name}"

/-- What a listing run prints and whether it succeeded. -/
structure Report where
  /-- The lines printed. -/
  lines : List String
  /-- Whether all profiles could be listed. -/
  status : Except Error Unit

/-- The listing for a configuration. -/
def report (files : Files) (configuration : Configuration) : Logged Report := do
  let catalogLines := header :: Collective.all.flatMap moduleLines
  match configuration.profilePath with
  | none => pure { lines := catalogLines, status := .ok () }
  | some path =>
    match ← (Profile.ofDirectory files path).run with
    | .ok profiles =>
      pure { lines := catalogLines ++ profiles.flatMap profileLines, status := .ok () }
    | .error error =>
      CollectiveTuner.report .error error.message []
      pure { lines := catalogLines, status := .error error }

/-- Lists the catalog for a process with this environment and these arguments. -/
def ofProcess (files : Files) (environment : Environment) (arguments : List String) :
    Logged Report := do
  let configuration ← Configuration.ofProcess files environment arguments
  report files configuration

/-- The text of a report. -/
def Report.text (report : Report) : String :=
  String.join (report.lines.map fun line => line ++ "\n")

end CollectiveTuner.Listing
