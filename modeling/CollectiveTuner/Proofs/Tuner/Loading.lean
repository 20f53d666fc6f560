import CollectiveTuner.FileTree
import CollectiveTuner.Proofs.Profile.Memory
import CollectiveTuner.Proofs.Tuner.Preparing

/-!
# Loading profiles in place

A context is got ready in place, so that what it holds after a failure matters. All profiles of a
directory are read before the first one is stored. A directory is therefore loaded as a whole or
not at all, and loading it again changes nothing. A profile with a table for which the machine has
no memory is the one thing that keeps loading from coming to a result.
-/

namespace CollectiveTuner

namespace SelectionContext.Initializer

variable {α β : Type}

/-! ### What is left behind -/

/-- Logging on its own does not fail. -/
theorem run_liftM (action : Logged α) : (liftM action : ExceptT Error Logged α).run =
    action >>= fun value => pure (.ok value) := rfl

/-- The second computation works on what the first one leaves behind, if that yields a value. -/
theorem runOn_bind (first : Initializer α) (next : α → Initializer β)
    (state : SelectionContext × Catalog) :
    (first >>= next).runOn state = first.runOn state >>= fun
      | (some (.ok value), after) => (next value).runOn after
      | (some (.error error), after) => pure (some (.error error), after)
      | (none, after) => pure (none, after) := by
  unfold runOn
  rw [ExceptT.run_bind, OptionT.run_bind, Option.elimM, StateT.run_bind]
  congr 1
  funext ⟨result, after⟩
  rcases result with _ | _ | _ <;> rfl

/-- Looking at the state leaves it as it is. -/
theorem runOn_get_bind (next : SelectionContext × Catalog → Initializer β)
    (state : SelectionContext × Catalog) : (get >>= next).runOn state = (next state).runOn state :=
  rfl

/-- An attempt leaves the state as it is. -/
theorem runOn_attempt (action : OptionT Logged (Except Error α))
    (state : SelectionContext × Catalog) :
    (attempt action).runOn state = action.run >>= fun result => pure (result, state) := rfl

/-- Logging leaves the state as it is. -/
theorem runOn_liftM (action : Logged α) (state : SelectionContext × Catalog) :
    (liftM action : Initializer α).runOn state =
      action >>= fun value => pure (some (.ok value), state) := by
  obtain ⟨value, events⟩ := action
  change (⟨_, ((events ++ []) ++ []) ++ []⟩ : Logged _) = ⟨_, events ++ []⟩
  simp only [List.append_nil]
  rfl

/-- Storing a profile adds it to the table of a tuned context. -/
theorem runOn_store (path : Option String) (table : ProfileTable) (catalog : Catalog)
    (profile : Profile) : (store profile).runOn (tuned path table, catalog) =
      addProfile table profile >>= fun after =>
        pure (some (.ok ()), (tuned path after, catalog)) := by
  unfold store
  rw [runOn_get_bind]
  dsimp only
  rw [runOn_bind, runOn_liftM, bind_assoc]
  rfl

/-- Storing profiles adds them to the table one after another. -/
theorem runOn_forM_store (path : Option String) (table : ProfileTable) (catalog : Catalog)
    (profiles : List Profile) : (profiles.forM store).runOn (tuned path table, catalog) =
      profiles.foldlM addProfile table >>= fun after =>
        pure (some (.ok ()), (tuned path after, catalog)) := by
  induction profiles generalizing table with
  | nil => rfl
  | cons profile rest ih =>
    rw [List.forM_eq_forM] at ih ⊢
    rw [List.forM_cons, runOn_bind, runOn_store, List.foldlM_cons, bind_assoc, bind_assoc]
    simp only [pure_bind, ih]

/-- Following a module selection activates an algorithm in the catalog, or fails and leaves it as it
is. -/
theorem runOn_follow (context : SelectionContext) (catalog : Catalog) (name params : String) :
    (follow name params).runOn (context, catalog) = (selectStatic catalog name params).run >>= fun
      | .ok after => pure (some (.ok ()), (context, after))
      | .error error => pure (some (.error error), (context, catalog)) := by
  unfold follow
  rw [runOn_get_bind]
  dsimp only
  rw [runOn_bind, runOn_attempt, OptionT.run_lift, bind_assoc, bind_assoc]
  congr 1
  funext result
  cases result <;> rfl

/-- No selection can fail, so that following all of them in place leaves nothing half done. -/
theorem exists_runOn_forM_follow (context : SelectionContext) (catalog : Catalog)
    (entries : List (String × String)) : ∃ after events,
      (entries.foldlM (fun catalog (name, params) => selectStatic catalog name params)
        catalog).run = ⟨.ok after, events⟩ ∧
      (entries.forM fun (name, params) => follow name params).runOn (context, catalog) =
        ⟨(some (.ok ()), (context, after)), events⟩ := by
  induction entries generalizing catalog with
  | nil => exact ⟨catalog, [], rfl, rfl⟩
  | cons entry rest ih =>
    obtain ⟨name, params⟩ := entry
    obtain ⟨next, early, hnext⟩ : ∃ next early,
        (selectStatic catalog name params).run = ⟨.ok next, early⟩ :=
      ⟨_, _, congrArg (Logged.mk · _) (value_selectStatic catalog name params)⟩
    obtain ⟨after, late, hfold, hloop⟩ := ih next
    refine ⟨after, early ++ late, ?_, ?_⟩
    · rw [List.foldlM_cons, ExceptT.run_bind, hnext, Logged.mk_bind]
      dsimp only
      rw [hfold]
    · rw [List.forM_eq_forM] at hloop ⊢
      rw [List.forM_cons, runOn_bind, runOn_follow, hnext, Logged.mk_bind, Logged.mk_bind]
      dsimp only [pure]
      rw [hloop, List.append_nil]

end SelectionContext.Initializer

namespace SelectionContext

open Initializer

variable {host : Host} {files : Files}

/-- **Getting a context ready in place leaves behind what getting it ready yields.** When that
fails, nothing has changed. Only a table for which there is no memory comes between. -/
theorem runOn_prepareInPlace (context : SelectionContext) (catalog : Catalog)
    (hfits : ∀ path table, context = tuned (some path) table →
      ¬ Profile.Stops (Profile.ofDirectoryOn host path)) :
    (prepareInPlace host).runOn (context, catalog) =
      (context.prepare host catalog).run >>= fun
        | .ok prepared => pure (some (.ok ()), prepared)
        | .error error => pure (some (.error error), (context, catalog)) := by
  unfold prepareInPlace
  rw [runOn_get_bind]
  match context with
  | static selections =>
    dsimp only
    obtain ⟨after, events, hfold, hloop⟩ :=
      exists_runOn_forM_follow (static selections) catalog selections.entries
    rw [hloop]
    unfold prepare prepareStatic
    dsimp only
    rw [ExceptT.run_bind, hfold, Logged.mk_bind, Logged.mk_bind]
    simp only [ExceptT.run_pure, Logged.value_pure, Logged.events_pure, List.append_nil]
  | tuned none table => rfl
  | tuned (some path) table =>
    have hread : (Profile.ofDirectoryOn host path).run.run =
        (Profile.ofDirectory host path).run >>= fun profiles => pure (some profiles) :=
      (Profile.follows_ofDirectoryOn (hfits path table rfl)).trans
        (congrArg (Logged.mk _) (List.append_nil _).symm)
    dsimp only
    rw [runOn_bind, runOn_attempt, hread]
    unfold prepare prepareTuned
    simp only [ExceptT.run_bind, bind_assoc, pure_bind]
    congr 1
    funext result
    cases result with
    | error error => rfl
    | ok profiles =>
      dsimp only
      rw [runOn_bind, runOn_forM_store]
      simp only [bind_assoc, pure_bind, runOn_get_bind, runOn_liftM, run_liftM, ExceptT.run_pure]

/-! ### The files of a directory -/

/-- The names of the profile files of a directory in ascending order: those of its regular files
that have the extension of profiles. -/
structure IsListing (files : Files) (directory : String) (names : List String) : Prop where
  /-- The names ascend. -/
  sorted : names.Pairwise (· ≤ ·)
  /-- They are the names of the profile files. -/
  perm : ∃ entries, files.list directory = .ok entries ∧
    names.Perm ((entries.filter fun entry => entry.isFile ∧
      Files.extension? entry.name = some "prf").map fun entry => entry.name)

/-- The names of the profile files in a directory list it. -/
theorem isListing_fileNames {directory : String} {entries : List DirectoryEntry}
    (hlist : files.list directory = .ok entries) :
    IsListing files directory (Profile.fileNames entries) := by
  constructor
  · have hsorted := @List.pairwise_mergeSort String (fun a b => decide (a ≤ b))
      (fun a b c hab hbc => by
        rw [decide_eq_true_eq] at hab hbc ⊢
        exact le_trans hab hbc)
      (fun a b => by
        simp only [Bool.or_eq_true, decide_eq_true_eq]
        exact le_total a b)
      ((entries.filter fun entry =>
        entry.isFile && Files.extension? entry.name == some Profile.fileExtension).map (·.name))
    apply hsorted.imp
    intro a b hle
    exact of_decide_eq_true hle
  · refine ⟨entries, hlist, (List.mergeSort_perm _ _).trans (.of_eq ?_)⟩
    congr 1
    apply List.filter_congr
    intro entry _
    rw [Bool.eq_iff_iff]
    simp [Profile.fileExtension]

/-- There is one listing of a directory. -/
theorem IsListing.eq_fileNames {directory : String} {names : List String}
    (hlisting : IsListing files directory names) : ∃ entries,
      files.list directory = .ok entries ∧ Profile.fileNames entries = names := by
  obtain ⟨entries, hlist, hperm⟩ := hlisting.perm
  obtain ⟨hsorted, others, hothers, hperm'⟩ := isListing_fileNames hlist
  obtain rfl := Except.ok.inj (hlist.symm.trans hothers)
  exact ⟨entries, hlist, (hperm'.trans hperm.symm).eq_of_pairwise
    (fun _ _ _ _ hle hge => le_antisymm hle hge) hsorted hlisting.sorted⟩

/-- The directory itself or the first of its profile files that cannot be read decides how loading
fails. -/
theorem exists_of_ofDirectory_eq_error {directory : String} {error : Error}
    (herror : (Profile.ofDirectory files directory).run.value = .error error) :
    (∃ cause, files.list directory = .error cause ∧ error = .profileDirectory directory cause) ∨
    ∃ earlier name later, IsListing files directory (earlier ++ name :: later) ∧
      (∀ other ∈ earlier, ∃ profile,
        (Profile.ofFile files (Files.join directory other)).run.value = .ok profile) ∧
      (Profile.ofFile files (Files.join directory name)).run.value = .error error := by
  rw [Profile.value_ofDirectory] at herror
  cases hlist : files.list directory with
  | error cause =>
    rw [hlist] at herror
    exact .inl ⟨cause, rfl, (Except.error.inj herror).symm⟩
  | ok entries =>
    rw [hlist] at herror
    obtain ⟨earlier, name, later, hnames, hearlier, hname⟩ :=
      Profile.exists_first_of_mapM_eq_error herror
    have hlisting := isListing_fileNames hlist
    rw [hnames] at hlisting
    exact .inr ⟨earlier, name, later, hlisting, hearlier, hname⟩

/-- A directory that can be loaded holds a profile in each of its profile files. -/
theorem exists_of_ofDirectory_eq_ok {directory : String} {profiles : List Profile}
    (hprofiles : (Profile.ofDirectory files directory).run.value = .ok profiles) :
    ∃ names, IsListing files directory names ∧ List.Forall₂ (fun name profile =>
      (Profile.ofFile files (Files.join directory name)).run.value = .ok profile) names
        profiles := by
  rw [Profile.value_ofDirectory] at hprofiles
  cases hlist : files.list directory with
  | error cause =>
    rw [hlist] at hprofiles
    cases hprofiles
  | ok entries =>
    rw [hlist] at hprofiles
    exact ⟨_, isListing_fileNames hlist, Profile.mapM_eq_ok_iff.mp hprofiles⟩

/-- Reading stops at a file with a table that does not fit, if it gets there. -/
theorem stops_ofDirectoryOn_iff {directory : String} :
    Profile.Stops (Profile.ofDirectoryOn host directory) ↔
      ∃ earlier name later, IsListing host directory (earlier ++ name :: later) ∧
        (∀ other ∈ earlier, ∃ profile,
          (Profile.ofFile host (Files.join directory other)).run.value = .ok profile) ∧
        Profile.FileExceeds host (Files.join directory name) := by
  rw [Profile.stops_ofDirectoryOn_iff]
  constructor
  · rintro ⟨entries, hlist, earlier, name, later, hnames, hearlier, hexceeds⟩
    have hlisting := isListing_fileNames hlist
    rw [hnames] at hlisting
    exact ⟨earlier, name, later, hlisting, hearlier, hexceeds⟩
  · rintro ⟨earlier, name, later, hlisting, hearlier, hexceeds⟩
    obtain ⟨entries, hlist, hnames⟩ := hlisting.eq_fileNames
    exact ⟨entries, hlist, earlier, name, later, hnames, hearlier, hexceeds⟩

/-! ### Loading a directory -/

/-- Only the profiles of the directory decide what is left behind. -/
theorem value_prepareInPlace (host : Host) (directory : String) (table : ProfileTable)
    (catalog : Catalog) :
    ((prepareInPlace host).runOn (tuned (some directory) table, catalog)).value =
      match (Profile.ofDirectoryOn host directory).run.run.value with
      | some (.ok profiles) => (some (.ok ()), (tuned (some directory)
          (profiles.foldlM addProfile table : Logged ProfileTable).value, catalog))
      | some (.error error) => (some (.error error), (tuned (some directory) table, catalog))
      | none => (none, (tuned (some directory) table, catalog)) := by
  by_cases hstops : Profile.Stops (Profile.ofDirectoryOn host directory)
  · unfold prepareInPlace
    rw [runOn_get_bind]
    dsimp only
    rw [runOn_bind, runOn_attempt, Logged.value_bind, Logged.value_bind, (hstops : _ = _)]
    rfl
  · have hfits (path : String) (other : ProfileTable)
        (hsame : tuned (some directory) table = tuned (some path) other) :
        ¬ Profile.Stops (Profile.ofDirectoryOn host path) := by
      cases hsame
      exact hstops
    rw [runOn_prepareInPlace _ catalog hfits, Logged.value_bind,
      (Profile.follows_ofDirectoryOn hstops : _ = _)]
    unfold prepare
    dsimp only
    rw [Tuner.value_run_bind, value_prepareTuned]
    cases (Profile.ofDirectory host directory).run.value <;> rfl

/-- Profiles that are stored once more change nothing. -/
theorem value_foldlM_addProfile_twice {profiles : List Profile}
    (hregistered : ∀ profile ∈ profiles, profile.Registered) (table : ProfileTable) :
    (profiles.foldlM addProfile
      (profiles.foldlM addProfile table : Logged ProfileTable).value : Logged ProfileTable).value =
        (profiles.foldlM addProfile table : Logged ProfileTable).value := by
  have hget (start : ProfileTable) (op : Collective) :=
    get?_value_foldlM_addProfile hregistered start op
  have hsame (op : Collective) := (hget (profiles.foldlM addProfile table).value op).trans
    (congrArg _ (hget table op))
  apply congrArg ProfileTable.mk (funext fun op => ?_)
  rw [hsame, hget]
  cases lastFor profiles op <;> rfl

/-- **A profile directory is loaded as a whole or not at all.** When loading it fails, the table
and the catalog are as they were, and the error is that of the directory or of the first profile
file, in the order of names, that cannot be read. When it succeeds, every profile file holds a
profile, none of them is skipped, and each operation has the last one for it, or what it had before
when there is none. The catalog stays as it was, and loading the directory any number of further
times changes nothing. Loading stops without a result exactly when it gets to a file that announces
a table for which there is no memory, and then nothing has changed either. -/
theorem loading_is_all_or_nothing (host : Host) (directory : String) (table : ProfileTable)
    (catalog : Catalog) :
    let load := fun state => ((prepareInPlace host).runOn state).value
    let before := (tuned (some directory) table, catalog)
    (∀ error, (load before).1 = some (.error error) → (load before).2 = before ∧
      ((∃ cause, host.list directory = .error cause ∧
          error = .profileDirectory directory cause) ∨
        ∃ earlier name later, IsListing host directory (earlier ++ name :: later) ∧
          (∀ other ∈ earlier, ∃ profile,
            (Profile.ofFile host (Files.join directory other)).run.value = .ok profile) ∧
          (Profile.ofFile host (Files.join directory name)).run.value = .error error)) ∧
    ((load before).1 = some (.ok ()) → ∃ names profiles after, IsListing host directory names ∧
      List.Forall₂ (fun name profile =>
        (Profile.ofFile host (Files.join directory name)).run.value = .ok profile)
        names profiles ∧
      (∀ profile ∈ profiles, ∀ other, (addProfile other profile).value = other.insert profile) ∧
      (load before).2 = (tuned (some directory) after, catalog) ∧
      (∀ op, after.get? op = (lastFor profiles op).or (table.get? op)) ∧
      ∀ times, load (Nat.iterate (fun state => (load state).2) times (load before).2) =
        (some (.ok ()), (tuned (some directory) after, catalog))) ∧
    ((load before).1 = none → (load before).2 = before) ∧
    ((load before).1 = none ↔
      ∃ earlier name later, IsListing host directory (earlier ++ name :: later) ∧
        (∀ other ∈ earlier, ∃ profile,
          (Profile.ofFile host (Files.join directory other)).run.value = .ok profile) ∧
        Profile.FileExceeds host (Files.join directory name)) := by
  intro load before
  rw [← stops_ofDirectoryOn_iff]
  have hload (start : ProfileTable) := value_prepareInPlace host directory start catalog
  by_cases hstops : Profile.Stops (Profile.ofDirectoryOn host directory)
  · have hbefore : load before = (none, before) := by
      rw [(hstops : _ = _)] at hload
      exact hload table
    rw [hbefore]
    exact ⟨nofun, nofun, fun _ => rfl, iff_of_true rfl hstops⟩
  rw [(Profile.follows_ofDirectoryOn hstops : _ = _)] at hload
  cases hprofiles : (Profile.ofDirectory host directory).run.value with
  | error error =>
    rw [hprofiles] at hload
    have hbefore : load before = (some (.error error), before) := hload table
    rw [hbefore]
    refine ⟨?_, nofun, nofun, iff_of_false nofun hstops⟩
    rintro other ⟨⟩
    exact ⟨rfl, exists_of_ofDirectory_eq_error hprofiles⟩
  | ok profiles =>
    rw [hprofiles] at hload
    have hregistered : ∀ profile ∈ profiles, profile.Registered :=
      fun profile hmem => Profile.registered_of_ofDirectory hprofiles hmem
    generalize hafter : (profiles.foldlM addProfile table : Logged ProfileTable).value = after
    have hbefore : load before = (some (.ok ()), (tuned (some directory) after, catalog)) := by
      rw [← hafter]
      exact hload table
    -- a second load finds what the first one has left
    have hagain : load (tuned (some directory) after, catalog) =
        (some (.ok ()), (tuned (some directory) after, catalog)) := by
      rw [← hafter]
      refine (hload _).trans ?_
      dsimp only
      rw [value_foldlM_addProfile_twice hregistered]
    rw [hbefore]
    refine ⟨nofun, fun _ => ?_, nofun, iff_of_false nofun hstops⟩
    obtain ⟨names, hnames, hread⟩ := exists_of_ofDirectory_eq_ok hprofiles
    refine ⟨names, profiles, after, hnames, hread, ?_, rfl, ?_, ?_⟩
    · intro profile hmem other
      exact value_addProfile (hregistered profile hmem) other
    · intro op
      rw [← hafter]
      exact get?_value_foldlM_addProfile hregistered table op
    · intro times
      have hfixed : Function.IsFixedPt (fun state => (load state).2)
          (tuned (some directory) after, catalog) := congrArg Prod.snd hagain
      rw [(hfixed.iterate times).eq]
      exact hagain

/-- The second file of the first directory is not a text, so the profile in its first file is not
stored. The same profile replaces an earlier one when it is alone. -/
theorem loading_is_all_or_nothing_bcast :
    let text := "MPI_Bcast\n2\n1\na bcast_as_allgatherv\n1\n1 9 a\n".toUTF8.data.toList
    let files := FileTree.files [(["p", "a.prf"], .file text), (["p", "b.prf"], .file [0xff]),
      (["q", "a.prf"], .file text)]
    let table := ProfileTable.empty.insert { collective := .bcast, groupSize := 4, ranges := [] }
    let load := fun directory =>
      ((prepareInPlace files.host).runOn (tuned (some directory) table, Catalog.default)).value
    ((load "p").1 = some (.error (.unreadableFile .notUtf8)) ∧
      (load "p").2 = (tuned (some "p") table, Catalog.default)) ∧
    ∃ after, (load "q").2 = (tuned (some "q") after, Catalog.default) ∧
      after.get? .bcast = some { collective := .bcast, groupSize := 2, ranges := [⟨1, 9, 1⟩] } := by
  intro text files table load
  constructor
  · have hlist : files.host.list "p" = .ok [⟨"a.prf", true⟩, ⟨"b.prf", true⟩] := rfl
    have hnames : Profile.fileNames [⟨"a.prf", true⟩, ⟨"b.prf", true⟩] = ["a.prf", "b.prf"] :=
      List.mergeSort_of_pairwise (by decide)
    have herror : (load "p").1 = some (.error (.unreadableFile .notUtf8)) := by
      dsimp only [load]
      rw [value_prepareInPlace]
      unfold Profile.ofDirectoryOn Profile.ofDirectoryWith
      rw [hlist]
      dsimp only
      rw [hnames]
      decide +kernel
    obtain ⟨hfails, -⟩ := loading_is_all_or_nothing files.host "p" table Catalog.default
    exact ⟨herror, (hfails _ herror).1⟩
  · have hok : (load "q").1 = some (.ok ()) := by
      decide +kernel
    have hlist : files.list "q" = .ok [⟨"a.prf", true⟩] := rfl
    have hfile : (Profile.ofFile files (Files.join "q" "a.prf")).run.value =
        .ok { collective := .bcast, groupSize := 2, ranges := [⟨1, 9, 1⟩] } := by
      decide +kernel
    obtain ⟨-, hloads, -⟩ := loading_is_all_or_nothing files.host "q" table Catalog.default
    obtain ⟨names, profiles, after, hnames, hread, -, hafter, hget, -⟩ := hloads hok
    obtain ⟨entries, hentries, hperm⟩ := hnames.perm
    obtain rfl := Except.ok.inj (hlist.symm.trans hentries)
    obtain rfl : names = ["a.prf"] := List.perm_singleton.mp (hperm.trans (.of_eq (by decide)))
    obtain ⟨profile, rest, hprofile, hrest, rfl⟩ := List.forall₂_cons_left_iff.mp hread
    obtain rfl := List.forall₂_nil_left_iff.mp hrest
    obtain rfl := Except.ok.inj (hfile.symm.trans hprofile)
    exact ⟨after, hafter, hget .bcast⟩

/-- A profile announces more aliases than there are addresses and ends there. It is malformed, but
loading it comes to no result. -/
theorem loading_stops_at_announced_table :
    let files := FileTree.files [(["p", "a.prf"], .file
      "MPI_Bcast\n2\n18446744073709551615\n".toUTF8.data.toList)]
    let before := (tuned (some "p") ProfileTable.empty, Catalog.default)
    ((prepareInPlace files.host).runOn before).value.1 = none ∧
      (Profile.ofFile files "p/a.prf").run.value =
        .error (.malformedProfile "p/a.prf" 4 "unexpected end of file, expected alias line") := by
  intro files before
  have hlist : files.host.list "p" = .ok [⟨"a.prf", true⟩] := rfl
  have hnames : Profile.fileNames [⟨"a.prf", true⟩] = [] ++ "a.prf" :: [] :=
    Profile.fileNames_singleton rfl
  have hrows : Profile.rows "MPI_Bcast\n2\n18446744073709551615\n" =
      [["MPI_Bcast"], ["2"], ["18446744073709551615"]] := by
    decide
  have hannounces : Profile.Announces (Profile.rows "MPI_Bcast\n2\n18446744073709551615\n")
      .aliases 18446744073709551615 := by
    rw [hrows]
    exact .aliases ⟨⟨.bcast, rfl⟩, ⟨2, ⟨"2", by decide⟩, by decide⟩,
      ⟨"18446744073709551615", by decide⟩⟩ []
  have hstops : Profile.Stops (Profile.ofDirectoryOn files.host "p") :=
    Profile.stops_ofDirectoryOn_iff.mpr ⟨_, hlist, [], "a.prf", [], hnames, by simp,
      "MPI_Bcast\n2\n18446744073709551615\n", by decide +kernel, .aliases, _, hannounces,
      Profile.not_fits_of_le (by decide)⟩
  constructor
  · rw [value_prepareInPlace, (hstops : _ = _)]
  · decide +kernel

end SelectionContext

end CollectiveTuner
