import CollectiveTuner.Proofs.Tuner.Sessions
import CollectiveTuner.Proofs.Tuner.Settling
import CollectiveTuner.Proofs.Tuner.Starting

/-!
# Choices over a whole run

A rank is followed from its start, by itself, through any calls and through choices of any
algorithms, registered or not. What it has active stays registered, and what it selects for a call
is either what a loaded profile says or what is active. So the algorithm of a call always exists.
-/

namespace CollectiveTuner

open Request
open Reduction (firstOperand)

/-! ### What a context knows -/

namespace SelectionContext

/-- The profile that a context has for an operation. -/
def profile? (context : SelectionContext) (op : Collective) : Option Profile :=
  match context with
  | static _ => none
  | tuned _ table => table.get? op

/-- The first range that holds the size, in a profile that was measured with this group size. A
call without bytes has none. -/
def decidingRange? (profile : Option Profile) (groupSize size : Nat) : Option SizeRange :=
  if size = 0 then none
  else (profile.filter fun profile => profile.groupSize = groupSize).bind fun profile =>
    profile.ranges.find? fun range => range.contains size

/-- A context chooses exactly when its profile has a range for the call. -/
theorem toOption_algorithmFor (context : SelectionContext) (op : Collective)
    (size groupSize : Nat) :
    (context.algorithmFor op size groupSize).toOption =
      (decidingRange? (context.profile? op) groupSize size).map SizeRange.algorithm := by
  unfold algorithmFor decidingRange? profile?
  cases context with
  | static selections => by_cases hsize : size = 0 <;> simp [hsize] <;> rfl
  | tuned path table =>
    dsimp only
    by_cases hsize : size = 0
    · rw [if_pos hsize, if_pos hsize]
      rfl
    · rw [if_neg hsize, if_neg hsize]
      cases table.get? op with
      | none => rfl
      | some profile =>
        dsimp only
        by_cases hgroup : profile.groupSize = groupSize
        · have hkept : (some profile).filter (fun profile => profile.groupSize = groupSize) =
              some profile := by
            simp [hgroup]
          rw [if_neg (not_not.mpr hgroup), hkept]
          dsimp only [Option.bind_some, Profile.algorithmFor]
          cases profile.ranges.find? fun range => range.contains size <;> rfl
        · have hnone : (some profile).filter (fun profile => profile.groupSize = groupSize) =
              none := by
            simp [hgroup]
          rw [if_pos hgroup, hnone]
          rfl

/-- What a context chooses comes from a range of its profile. -/
theorem registered_of_decidingRange {profile : Option Profile} {groupSize size : Nat}
    {range : SizeRange} {op : Collective}
    (hregistered : ∀ found, profile = some found → found.Registered ∧ found.collective = op)
    (hrange : decidingRange? profile groupSize size = some range) :
    (op.choices.any fun choice => choice.id == range.algorithm) = true := by
  unfold decidingRange? at hrange
  split at hrange
  · cases hrange
  · obtain ⟨found, hfound, hrange⟩ := Option.bind_eq_some_iff.mp hrange
    obtain ⟨hall, rfl⟩ := hregistered found (Option.filter_eq_some_iff.mp hfound).1
    exact hall range (List.mem_of_find?_eq_some hrange)

end SelectionContext

namespace Tuner

/-! ### Runs of one rank -/

/-- The profile that a configuration provides for an operation. -/
def configured? (files : Files) (configuration : Configuration) (op : Collective) :
    Option Profile :=
  SelectionContext.loaded? files (directory? configuration) op

/-- The profile of a configuration is for its operation and has only registered algorithms. -/
theorem registered_of_configured {files : Files} {configuration : Configuration} {op : Collective}
    {profile : Profile} (hprofile : configured? files configuration op = some profile) :
    profile.Registered ∧ profile.collective = op := by
  exact SelectionContext.registered_of_loaded hprofile

/-- The tuners that a rank has at some point between calls. Algorithms of any identifiers are
chosen, and calls get any replies. -/
inductive ReachableAlone (arithmetic : FloatArithmetic) (host : Host)
    (configuration : Configuration) (me : Member) : Tuner → Prop
  | started {tuner : Tuner} (hstart : (start host me configuration).run.value = .ok tuner) :
      ReachableAlone arithmetic host configuration me tuner
  | chosen {tuner : Tuner} (op : Collective) (id : AlgorithmId)
      (hbefore : ReachableAlone arithmetic host configuration me tuner) :
      ReachableAlone arithmetic host configuration me (Session.choose tuner op id)
  | called {tuner : Tuner} (request : Request) (replies : Replies) (input output : Bytes)
      (hbefore : ReachableAlone arithmetic host configuration me tuner) :
      ReachableAlone arithmetic host configuration me
        (performed arithmetic replies tuner request input output).1.tuner

/-- What holds of a rank's tuner between calls. -/
structure Faithful (host : Host) (configuration : Configuration) (me : Member) (tuner : Tuner) :
    Prop where
  me : tuner.me = me
  registered : tuner.catalog.Registered
  profile : ∀ op, tuner.context.profile? op = configured? host configuration op

variable {arithmetic : FloatArithmetic} {host : Host} {configuration : Configuration}
  {me : Member} {tuner after : Tuner}

/-- A tuner that was started is faithful to its configuration. -/
theorem faithful_of_start (hstart : (start host me configuration).run.value = .ok tuner) :
    Faithful host configuration me tuner := by
  have hregistered := registered_of_start hstart
  obtain ⟨arena, context, catalog, -, hprepared, rfl⟩ := exists_of_start hstart
  refine ⟨rfl, hregistered, fun op => ?_⟩
  unfold SelectionContext.ofConfiguration at hprepared
  unfold configured? directory?
  cases hkind : configuration.context with
  | static =>
    rw [hkind] at hprepared
    obtain ⟨_, -, hprepared⟩ := exists_of_value_bind hprepared
    obtain ⟨rfl, -⟩ := Prod.mk.inj (Except.ok.inj hprepared)
    rfl
  | tuned =>
    rw [hkind] at hprepared
    obtain ⟨table, htable, hprepared⟩ := exists_of_value_bind hprepared
    obtain ⟨rfl, -⟩ := Prod.mk.inj (Except.ok.inj hprepared)
    exact (SelectionContext.get?_of_prepareTuned htable op).trans (Option.or_none)

/-- A refused choice changes nothing, and any other one changes one operation. -/
theorem choose_cases (tuner : Tuner) (op : Collective) (id : AlgorithmId) :
    ((op.choices.any fun choice => choice.id == id) = true ∧ Session.choose tuner op id =
      { tuner with catalog := ⟨Collective.update tuner.catalog.active op id⟩ }) ∨
    ((op.choices.any fun choice => choice.id == id) = false ∧
      Session.choose tuner op id = tuner) := by
  cases hid : op.choices.any fun choice => choice.id == id with
  | true =>
    left
    rw [Session.choose, setAlgorithm_of_registered tuner hid]
    exact ⟨rfl, rfl⟩
  | false =>
    right
    obtain ⟨error, hrefused⟩ := setAlgorithm_of_not_registered tuner (Bool.not_eq_true _ ▸ hid)
    rw [Session.choose, hrefused]
    exact ⟨rfl, rfl⟩

/-- Choosing an algorithm keeps a tuner faithful. -/
theorem Faithful.choose (hfaithful : Faithful host configuration me tuner) (op : Collective)
    (id : AlgorithmId) : Faithful host configuration me (Session.choose tuner op id) := by
  rcases choose_cases tuner op id with ⟨hid, hchosen⟩ | ⟨-, hsame⟩
  · have hcatalog := hfaithful.registered.activate (Catalog.activate_eq_ok_iff.mpr ⟨hid, rfl⟩)
    rw [hchosen]
    exact ⟨hfaithful.me, hcatalog, hfaithful.profile⟩
  · rw [hsame]
    exact hfaithful

/-- A tuner whose setup stays the same stays faithful. -/
theorem Faithful.of_sameSetup (hfaithful : Faithful host configuration me tuner)
    (hsame : tuner.SameSetup after) : Faithful host configuration me after where
  me := hsame.me.trans hfaithful.me
  registered := hsame.catalog ▸ hfaithful.registered
  profile op := by rw [hsame.context, hfaithful.profile op]

/-- Every tuner that its rank can get to is faithful. -/
theorem faithful_of_reachableAlone
    (hreachable : ReachableAlone arithmetic host configuration me tuner) :
    Faithful host configuration me tuner := by
  induction hreachable with
  | started hstart => exact faithful_of_start hstart
  | chosen op id _ ih => exact ih.choose op id
  | called request replies input output _ ih =>
    exact ih.of_sameSetup (sameSetup_performed arithmetic replies _ request input output)

/-- What is selected is what the profile says, and otherwise what is active. Only a trace of it is
reported. -/
theorem Faithful.select_eq (hfaithful : Faithful host configuration me tuner) (op : Collective)
    (size : Nat) : ∃ trace : Event, trace.level = .trace ∧ tuner.select op size =
      ⟨((SelectionContext.decidingRange? (configured? host configuration op) me.size size).map
        SizeRange.algorithm).getD (tuner.catalog.active op), [trace]⟩ := by
  have hchoice := tuner.context.toOption_algorithmFor op size tuner.me.size
  rw [hfaithful.profile, hfaithful.me] at hchoice
  rw [← hchoice]
  unfold select
  rw [hfaithful.me]
  cases hid : tuner.context.algorithmFor op size me.size with
  | error error => exact ⟨_, rfl, rfl⟩
  | ok id =>
    rw [hid] at hchoice
    obtain ⟨range, hrange, rfl⟩ := Option.map_eq_some_iff.mp hchoice.symm
    have hregistered := SelectionContext.registered_of_decidingRange
      (fun found hfound => registered_of_configured hfound) hrange
    have hvalid : Choice.validate op.choices range.algorithm = .ok () := by
      rw [Choice.validate, if_pos hregistered]
      rfl
    dsimp only [Catalog.module]
    rw [hvalid]
    exact ⟨_, rfl, rfl⟩

/-- **What is selected always exists, and no run changes what decides about it.** At every point
between the calls of a rank, all active algorithms are registered. For a call, the first range of
the loaded profile that holds its size decides if there is one, and what is active otherwise, and
that algorithm exists. Only a choice of a registered algorithm changes what is active, and it
changes one operation. Preparing a static context over any catalog never fails, and it makes active
what is asked for in the operations that are selected and leaves the others as they were. -/
theorem selection_over_runs
    (hreachable : ReachableAlone arithmetic host configuration me tuner) :
    tuner.catalog.Registered ∧
    (∀ op size,
      let id := (tuner.select op size).value
      id = ((SelectionContext.decidingRange? (configured? host configuration op) me.size size).map
          SizeRange.algorithm).getD (tuner.catalog.active op) ∧
        ∃ algorithm : Algorithm op, algorithm.id = id ∧ resolve op id = ⟨some algorithm, []⟩) ∧
    (∀ op id, ((op.choices.any fun choice => choice.id == id) = true →
        Session.choose tuner op id =
          { tuner with catalog := ⟨Collective.update tuner.catalog.active op id⟩ }) ∧
      ((op.choices.any fun choice => choice.id == id) = false →
        (∃ error, tuner.setAlgorithm op id = .error error) ∧
          Session.choose tuner op id = tuner)) ∧
    (∀ request replies input output,
      (performed arithmetic replies tuner request input output).1.tuner.catalog =
        tuner.catalog) ∧
    ∀ (selections : Dictionary String String) (catalog : Catalog),
      (SelectionContext.prepareStatic selections catalog).run.value = .ok
        { active := fun op =>
            match selections.get? op.shortName with
            | some params => op.requested params
            | none => catalog.active op } := by
  have hfaithful := faithful_of_reachableAlone hreachable
  refine ⟨hfaithful.registered, fun op size => ⟨?_, ?_⟩,
    fun op id => ⟨fun hid => ?_, fun hid => ?_⟩, fun request replies input output => ?_,
    SelectionContext.value_prepareStatic⟩
  · obtain ⟨trace, -, hselect⟩ := hfaithful.select_eq op size
    rw [hselect]
  · obtain ⟨algorithm, hfound, hid⟩ :=
      exists_algorithm (registered_select hfaithful.registered op size)
    refine ⟨algorithm, hid, ?_⟩
    rw [resolve, hfound]
    rfl
  · rcases choose_cases tuner op id with ⟨-, hchosen⟩ | ⟨hnot, -⟩
    · exact hchosen
    · rw [hid] at hnot
      cases hnot
  · rcases choose_cases tuner op id with ⟨hyes, -⟩ | ⟨-, hsame⟩
    · rw [hid] at hyes
      cases hyes
    · exact ⟨setAlgorithm_of_not_registered tuner (Bool.not_eq_true _ ▸ hid), hsame⟩
  · exact (sameSetup_performed arithmetic replies tuner request input output).catalog

/-- Two ranks have a profile for bcast. One of them chooses an algorithm for the sizes outside, and
one that does not exist. -/
theorem selection_over_runs_bcast :
    ∃ tuner : Tuner,
      (start
        (FileTree.files [(["p", "bcast.prf"], .file
          "MPI_Bcast\n2\n1\na bcast_as_allgatherv\n1\n1 9 a\n".toUTF8.data.toList)]).host
        ⟨0, 2⟩ { Configuration.default with context := .tuned, profilePath := some "p" }).run.value
          = .ok tuner ∧
      let chosen := Session.choose (Session.choose tuner .bcast 2) .bcast 7
      (chosen.select .bcast 5).value = 1 ∧ (chosen.select .bcast 10).value = 2 ∧
        (chosen.select .bcast 0).value = 2 := by
  let files := FileTree.files [(["p", "bcast.prf"], .file
    "MPI_Bcast\n2\n1\na bcast_as_allgatherv\n1\n1 9 a\n".toUTF8.data.toList)]
  let configuration : Configuration :=
    { Configuration.default with context := .tuned, profilePath := some "p" }
  let sheet : Profile.Sheet :=
    { collective := .bcast, groupSize := 2, aliases := [("a", "bcast_as_allgatherv")]
      ranges := [⟨1, 9, "a"⟩] }
  have hrows : Profile.rows "MPI_Bcast\n2\n1\na bcast_as_allgatherv\n1\n1 9 a\n" =
      ["MPI_Bcast"] :: ["2"] :: ["1"] :: ([["a", "bcast_as_allgatherv"]] ++
        ["1"] :: [["1", "9", "a"]]) := by
    decide
  have hsheet : sheet.Begins
      (Profile.rows "MPI_Bcast\n2\n1\na bcast_as_allgatherv\n1\n1 9 a\n") :=
    ⟨_, List.prefix_rfl, _, _, _, _, _, _, hrows, by decide, ⟨⟨"2", by decide⟩, by decide⟩,
      ⟨"1", by decide⟩, .cons ⟨[], rfl⟩ .nil, ⟨⟨"1", by decide⟩, by decide⟩,
      .cons ⟨"1", "9", [], rfl, by decide⟩ .nil⟩
  have hlist : files.list "p" = .ok [⟨"bcast.prf", true⟩] := rfl
  have htext : files.readText (Files.join "p" "bcast.prf") =
      .ok "MPI_Bcast\n2\n1\na bcast_as_allgatherv\n1\n1 9 a\n" := rfl
  have hloaded : (Profile.ofDirectory files "p").run.value = .ok [sheet.profile] := by
    rw [Profile.value_ofDirectory_singleton hlist rfl, Profile.value_ofFile, htext]
    dsimp only
    rw [(Profile.ofText_of_begins _ hsheet).1]
    rfl
  have hprofile : configured? files.host configuration .bcast =
      some { collective := .bcast, groupSize := 2, ranges := [⟨1, 9, 1⟩] } := by
    change SelectionContext.loaded? files (some "p") .bcast = _
    rw [SelectionContext.loaded?, Option.map_some, hloaded]
    rfl
  have hprepare : ∃ table, (SelectionContext.prepareTuned files (directory? configuration)
      ProfileTable.empty).run.value = .ok table := by
    change ∃ table, (SelectionContext.prepareTuned files (some "p") _).run.value = .ok table
    rw [SelectionContext.value_prepareTuned, hloaded]
    exact ⟨_, rfl⟩
  have hallocate : ∃ arena, Scratch.Arena.allocate files.host.refusedBytes
      Configuration.default.messageBytes.value Configuration.default.integerBytes.value =
        .ok arena := ⟨_, rfl⟩
  obtain ⟨tuner, hstart⟩ := @exists_start files.host configuration ⟨0, 2⟩ hallocate hprepare
  have hstarted : ReachableAlone firstOperand files.host configuration ⟨0, 2⟩ tuner :=
    .started hstart
  -- the second choice is refused, so the first one stays active
  obtain ⟨-, -, hchoose, -⟩ := selection_over_runs hstarted
  obtain ⟨-, -, hchoose', -⟩ := selection_over_runs (hstarted.chosen .bcast 2)
  obtain ⟨-, hselect, -⟩ := selection_over_runs ((hstarted.chosen .bcast 2).chosen .bcast 7)
  have hactive : (Session.choose (Session.choose tuner .bcast 2) .bcast 7).catalog.active .bcast =
      2 := by
    rw [((hchoose' .bcast 7).2 (by decide)).2, (hchoose .bcast 2).1 (by decide)]
    exact Collective.update_same tuner.catalog.active .bcast 2
  refine ⟨tuner, hstart, ?_, ?_, ?_⟩
  · rw [(hselect .bcast 5).1, hprofile, hactive]
    rfl
  · rw [(hselect .bcast 10).1, hprofile, hactive]
    rfl
  · rw [(hselect .bcast 0).1, hprofile, hactive]
    rfl

end Tuner

end CollectiveTuner
