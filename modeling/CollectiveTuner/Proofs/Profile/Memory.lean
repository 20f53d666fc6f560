import CollectiveTuner.Proofs.Profile.Format

/-!
# Profiles and memory

A machine takes the memory for a table when a profile announces it, and stops where there is none.
`Announces` says which rows announce a table. Reading stops exactly when an announced table does not
fit, and otherwise it comes to what it comes to with unlimited memory.
-/

namespace CollectiveTuner.Profile

/-! ### Computations that can stop -/

section

variable {ε α β : Type}

/-- The computation stops for lack of memory. -/
def Stops (action : ExceptT ε (OptionT Logged) α) : Prop :=
  action.run.run.value = none

/-- The computation comes to what the other one comes to, with the same events. -/
def Mirrors (action : ExceptT ε (OptionT Logged) α) (ideal : ExceptT ε Logged α) : Prop :=
  action.run.run = ⟨some ideal.run.value, ideal.run.events⟩

/-- The computation comes to what the other one comes to unless it stops. -/
def Follows (action : ExceptT ε (OptionT Logged) α) (ideal : ExceptT ε Logged α) : Prop :=
  ¬ Stops action → Mirrors action ideal

/-- What comes after an action is carried out only on its value. -/
theorem run_bind_run (action : ExceptT ε (OptionT Logged) α)
    (next : α → ExceptT ε (OptionT Logged) β) :
    (action >>= next).run.run = action.run.run >>= fun
      | none => pure none
      | some (.error error) => pure (some (.error error))
      | some (.ok value) => (next value).run.run := by
  rw [ExceptT.run_bind, OptionT.run_bind, Option.elimM]
  congr 1
  funext result
  rcases result with _ | _ | _ <;> rfl

/-- What comes after a computation that stops is not reached. -/
theorem Stops.bind {action : ExceptT ε (OptionT Logged) α} (hstops : Stops action)
    (next : α → ExceptT ε (OptionT Logged) β) : Stops (action >>= next) := by
  unfold Stops
  rw [run_bind_run, Logged.value_bind, hstops]
  rfl

variable {action : ExceptT ε (OptionT Logged) α} {ideal : ExceptT ε Logged α}
  {next : α → ExceptT ε (OptionT Logged) β} {idealNext : α → ExceptT ε Logged β}

/-- One computation after another stops when the first one does, or the second one with what the
first one yields. -/
theorem Follows.stops_bind_iff (hfollows : Follows action ideal) :
    Stops (action >>= next) ↔
      Stops action ∨ ∃ value, ideal.run.value = .ok value ∧ Stops (next value) := by
  by_cases hstops : Stops action
  · exact ⟨fun _ => .inl hstops, fun _ => hstops.bind next⟩
  · rw [or_iff_right hstops]
    unfold Stops
    rw [run_bind_run, (hfollows hstops : _ = _), Logged.value_bind]
    cases ideal.run.value with
    | error error => simp
    | ok value => simp

/-- Two actions in sequence follow two ideal ones in sequence, if each follows its own. -/
theorem Follows.bind (hfollows : Follows action ideal)
    (hnext : ∀ value, ideal.run.value = .ok value → Follows (next value) (idealNext value)) :
    Follows (action >>= next) (ideal >>= idealNext) := by
  intro hstops
  have hfirst : ¬ Stops action := fun hfirst => hstops (hfirst.bind next)
  unfold Mirrors
  rw [run_bind_run, (hfollows hfirst : _ = _), ExceptT.run_bind, Logged.mk_bind, Logged.value_bind,
    Logged.events_bind]
  cases hvalue : ideal.run.value with
  | error error => rfl
  | ok value =>
    have hsecond : ¬ Stops (next value) := fun hsecond =>
      hstops (hfollows.stops_bind_iff.mpr (.inr ⟨value, hvalue, hsecond⟩))
    dsimp only
    rw [(hnext value hvalue hsecond : _ = _)]

/-- An action that mirrors an ideal one does not stop. -/
theorem Mirrors.not_stops (hmirrors : Mirrors action ideal) : ¬ Stops action := by
  unfold Stops
  rw [(hmirrors : _ = _)]
  nofun

/-- An action that mirrors an ideal one follows it. -/
theorem Mirrors.follows (hmirrors : Mirrors action ideal) : Follows action ideal :=
  fun _ => hmirrors

/-- Two actions in sequence mirror two ideal ones in sequence, if each mirrors its own. -/
theorem Mirrors.bind (hmirrors : Mirrors action ideal)
    (hnext : ∀ value, Mirrors (next value) (idealNext value)) :
    Mirrors (action >>= next) (ideal >>= idealNext) := by
  refine hmirrors.follows.bind (fun value _ => (hnext value).follows) ?_
  rw [hmirrors.follows.stops_bind_iff]
  rintro (hstops | ⟨value, -, hstops⟩)
  · exact hmirrors.not_stops hstops
  · exact (hnext value).not_stops hstops

/-- A value mirrors itself. -/
theorem mirrors_pure (value : α) :
    Mirrors (pure value : ExceptT ε (OptionT Logged) α) (pure value) := rfl

/-- An error mirrors itself. -/
theorem mirrors_throw (error : ε) :
    Mirrors (throw error : ExceptT ε (OptionT Logged) α) (throw error) := rfl

/-- Logging mirrors itself. -/
theorem mirrors_liftM (action : Logged α) :
    Mirrors (liftM action : ExceptT ε (OptionT Logged) α) (liftM action) :=
  congrArg (Logged.mk _) (List.append_nil _)

/-- Computations one after another follow others when each of them does. -/
theorem follows_mapM {names : List α} {load : α → ExceptT ε (OptionT Logged) β}
    {ideal : α → ExceptT ε Logged β} (hload : ∀ name, Follows (load name) (ideal name)) :
    Follows (names.mapM load) (names.mapM ideal) := by
  induction names with
  | nil => exact (mirrors_pure []).follows
  | cons name rest ih =>
    rw [List.mapM_cons, List.mapM_cons]
    exact (hload name).bind fun _ _ => ih.bind fun _ _ => (mirrors_pure _).follows

/-- They stop at the first one that stops, if all before it succeed. -/
theorem stops_mapM_iff {names : List α} {load : α → ExceptT ε (OptionT Logged) β}
    {ideal : α → ExceptT ε Logged β} (hload : ∀ name, Follows (load name) (ideal name)) :
    Stops (names.mapM load) ↔
      ∃ earlier name later, names = earlier ++ name :: later ∧
        (∀ other ∈ earlier, ∃ value, (ideal other).run.value = .ok value) ∧
        Stops (load name) := by
  induction names with
  | nil => exact iff_of_false (mirrors_pure []).not_stops (by simp)
  | cons first rest ih =>
    rw [List.mapM_cons, (hload first).stops_bind_iff]
    simp only [(follows_mapM hload).stops_bind_iff, (mirrors_pure _).not_stops, and_false,
      exists_false, or_false, ih]
    constructor
    · rintro (hstops | ⟨value, hvalue, earlier, name, later, rfl, hearlier, hstops⟩)
      · exact ⟨[], first, rest, rfl, by simp, hstops⟩
      · exact ⟨first :: earlier, name, later, rfl,
          List.forall_mem_cons.mpr ⟨⟨value, hvalue⟩, hearlier⟩, hstops⟩
    · rintro ⟨earlier, name, later, hnames, hearlier, hstops⟩
      cases earlier with
      | nil =>
        obtain ⟨rfl, rfl⟩ := List.cons.inj hnames
        exact .inl hstops
      | cons head earlier =>
        obtain ⟨rfl, rfl⟩ := List.cons.inj hnames
        obtain ⟨⟨value, hvalue⟩, hearlier⟩ := List.forall_mem_cons.mp hearlier
        exact .inr ⟨value, hvalue, earlier, name, later, rfl, hearlier, hstops⟩

end

/-! ### Announcements -/

/-- The rows above an alias table: they name an operation, the size of a group and the length of
the table. -/
structure IsHeading (nameRow sizeRow countRow : List String) (aliases : Nat) : Prop where
  /-- The first row names an operation. -/
  name : ∃ op : Collective, nameRow.head? = some op.name
  /-- The second row gives the size of a group, which is not empty. -/
  size : ∃ groupSize, IsNumberRow 32 sizeRow groupSize ∧ 0 < groupSize
  /-- The third row gives the length of the table. -/
  count : IsNumberRow 64 countRow aliases

/-- The rows announce a table of so many entries. What stands above its length is well formed, and
what comes after it does not matter. -/
inductive Announces : List (List String) → Table → Nat → Prop
  | aliases {nameRow sizeRow countRow : List String} {entries : Nat}
      (hheading : IsHeading nameRow sizeRow countRow entries) (rest : List (List String)) :
      Announces (nameRow :: sizeRow :: countRow :: rest) .aliases entries
  | ranges {nameRow sizeRow aliasCountRow countRow : List String} {entries : Nat}
      {aliasRows : List (List String)} {aliases : List (String × String)}
      (hheading : IsHeading nameRow sizeRow aliasCountRow aliases.length)
      (haliases : List.Forall₂ IsAliasRow aliasRows aliases)
      (hcount : IsNumberRow 64 countRow entries ∧ 0 < entries) (rest : List (List String)) :
      Announces (nameRow :: sizeRow :: aliasCountRow :: (aliasRows ++ countRow :: rest)) .ranges
        entries

/-- The text announces a table for which the machine has no memory. -/
def Exceeds (host : Host) (text : String) : Prop :=
  ∃ table entries, Announces (rows text) table entries ∧ ¬ table.Fits host entries

/-- No machine has memory for a table that is longer than half of the addresses. -/
theorem not_fits_of_le {host : Host} {table : Table} {entries : Nat}
    (hlong : UInt64.size / 2 ≤ entries * Table.entryBytes) : ¬ table.Fits host entries := by
  have hbytes : entries * Table.entryBytes ≤ table.bytes host entries := by
    cases table with
    | aliases => exact host.le_hashTableBytes entries Table.entryBytes
    | ranges => exact Nat.le_refl _
  rintro (rfl | hfits)
  · rw [Nat.zero_mul] at hlong
    exact absurd hlong (by decide)
  · have hle := host.refusedBytes_le
    omega

/-- A text announces the tables of the sheet that it holds. -/
theorem announces_of_begins {sheet : Sheet} {rows : List (List String)}
    (hsheet : sheet.Begins rows) :
    Announces rows .aliases sheet.aliases.length ∧
      Announces rows .ranges sheet.ranges.length := by
  obtain ⟨_, ⟨rest, rfl⟩, _, _, _, _, _, rangeRows, rfl, hname, hsize, haliasCount, haliases,
    hrangeCount, -⟩ := hsheet
  have hheading := IsHeading.mk ⟨sheet.collective, hname⟩ ⟨sheet.groupSize, hsize⟩ haliasCount
  refine ⟨.aliases hheading _, ?_⟩
  have hranges := Announces.ranges hheading haliases hrangeCount (rangeRows ++ rest)
  simpa only [List.cons_append, List.append_assoc] using hranges

namespace Cursor

variable {before : Cursor}

/-- The words of the next line, and those of the lines after it. -/
theorem map_words_eq_cons_iff {row : List String} {rows : List (List String)} :
    before.rest.map TextLine.words = row :: rows ↔
      ∃ line after, before.Passes [line] after ∧ line.words = row ∧
        after.rest.map TextLine.words = rows := by
  rw [List.map_eq_cons_iff]
  constructor
  · rintro ⟨line, rest, hrest, hline, hrows⟩
    exact ⟨line, ⟨rest, line.number⟩, ⟨hrest, rfl⟩, hline, hrows⟩
  · rintro ⟨line, after, ⟨hrest, -⟩, hline, hrows⟩
    exact ⟨line, after.rest, hrest, hline, hrows⟩

/-- The words of the lines left begin with some rows when lines of these words can be passed. -/
theorem map_words_eq_append_iff {rows more : List (List String)} :
    before.rest.map TextLine.words = rows ++ more ↔
      ∃ lines after, before.Passes lines after ∧ lines.map TextLine.words = rows ∧
        after.rest.map TextLine.words = more := by
  rw [List.map_eq_append_iff]
  constructor
  · rintro ⟨lines, rest, hrest, hlines, hmore⟩
    exact ⟨lines, ⟨rest, lines.foldl (fun _ line => line.number) before.last⟩, ⟨hrest, rfl⟩, hlines,
      hmore⟩
  · rintro ⟨lines, after, ⟨hrest, -⟩, hlines, hmore⟩
    exact ⟨lines, after.rest, hrest, hlines, hmore⟩

end Cursor

/-! ### Readers -/

namespace Reader

/-- The reader of a machine, which can stop. -/
abbrev OnMachine := StateT Cursor (ExceptT Fault (OptionT Logged))

variable {α β : Type} {host : Host} {path : String} {before : Cursor}

/-- The reader's own steps never stop. -/
theorem mirrors_run_liftM (reader : Reader α) (before : Cursor) :
    Mirrors ((liftM reader : OnMachine α).run before) (reader.run before) :=
  congrArg (Logged.mk _) (List.append_nil _)

/-- A reader that takes no memory follows itself. -/
theorem follows_run_liftM (reader : Reader α) (before : Cursor) :
    Follows ((liftM reader : OnMachine α).run before) (reader.run before) :=
  (mirrors_run_liftM reader before).follows

/-- Allocating a table stops the computation just when the table does not fit. -/
theorem stops_run_allocate_iff {table : Table} {entries : Nat} :
    Stops ((liftM (table.allocate host entries) : OnMachine Unit).run before) ↔
      ¬ table.Fits host entries := by
  unfold Table.allocate
  by_cases hfits : table.Fits host entries
  · rw [if_pos hfits]
    exact iff_of_false nofun (not_not_intro hfits)
  · rw [if_neg hfits]
    exact iff_of_true rfl hfits

/-- Memory that can be had is taken without a trace. -/
theorem follows_run_allocate (table : Table) (entries : Nat) (before : Cursor) :
    Follows ((liftM (table.allocate host entries) : OnMachine Unit).run before)
      ((pure () : Reader Unit).run before) := by
  intro hstops
  rw [stops_run_allocate_iff, not_not] at hstops
  unfold Table.allocate
  rw [if_pos hstops]
  rfl

/-- Two readers in sequence follow two ideal ones in sequence, if each follows its own. -/
theorem follows_run_bind {reader : OnMachine α} {ideal : Reader α} {next : α → OnMachine β}
    {idealNext : α → Reader β} (hfirst : ∀ before, Follows (reader.run before) (ideal.run before))
    (hnext : ∀ value before, Follows ((next value).run before) ((idealNext value).run before))
    (before : Cursor) :
    Follows ((reader >>= next).run before) ((ideal >>= idealNext).run before) := by
  rw [StateT.run_bind, StateT.run_bind]
  exact (hfirst before).bind fun result _ => hnext result.1 result.2

/-- After a reader that takes no memory, the computation stops just when it stops on what that one
gives. -/
theorem stops_run_liftM_bind_iff {reader : Reader α} {next : α → OnMachine β} :
    Stops (((liftM reader : OnMachine α) >>= next).run before) ↔
      ∃ value after warned, Gives reader before value after warned ∧
        Stops ((next value).run after) := by
  rw [StateT.run_bind, (follows_run_liftM reader before).stops_bind_iff,
    or_iff_right (mirrors_run_liftM reader before).not_stops]
  constructor
  · rintro ⟨⟨value, after⟩, hvalue, hstops⟩
    exact ⟨value, after, _, ⟨hvalue, rfl⟩, hstops⟩
  · rintro ⟨value, after, _, ⟨hvalue, -⟩, hstops⟩
    exact ⟨(value, after), hvalue, hstops⟩

/-- After a table is allocated, the computation stops just when the table does not fit or a later
step stops. -/
theorem stops_run_allocate_bind_iff {table : Table} {entries : Nat} {next : Unit → OnMachine β} :
    Stops (((liftM (table.allocate host entries) : OnMachine Unit) >>= next).run before) ↔
      ¬ table.Fits host entries ∨ Stops ((next ()).run before) := by
  rw [StateT.run_bind, (follows_run_allocate table entries before).stops_bind_iff,
    stops_run_allocate_iff]
  refine or_congr_right ⟨?_, fun hstops => ⟨((), before), rfl, hstops⟩⟩
  rintro ⟨result, hresult, hstops⟩
  obtain rfl := Except.ok.inj hresult
  exact hstops

/-- A profile is read as with unlimited memory, unless reading it stops. -/
theorem follows_run_profileOn (host : Host) (path : String) (before : Cursor) :
    Follows ((profileOn host path).run before) ((profile path).run before) := by
  unfold profileOn profile profileWith
  refine follows_run_bind (follows_run_liftM operation) (fun collective => ?_) before
  refine follows_run_bind (follows_run_liftM (nextPositive _ _ _)) fun groupSize => ?_
  refine follows_run_bind (follows_run_liftM (nextNumber _ _)) fun aliasCount => ?_
  refine follows_run_bind (follows_run_allocate .aliases aliasCount) fun _ => ?_
  refine follows_run_bind (follows_run_liftM (repeated _ aliasCount)) fun aliases => ?_
  refine follows_run_bind (follows_run_liftM (nextPositive _ _ _)) fun rangeCount => ?_
  refine follows_run_bind (follows_run_allocate .ranges rangeCount) fun _ => ?_
  refine follows_run_bind (follows_run_liftM (repeated _ rangeCount)) fun ranges before => ?_
  exact (mirrors_pure _).follows

/-- **Reading stops exactly when a table is announced that does not fit.** -/
theorem stops_run_profileOn_iff : Stops ((profileOn host path).run before) ↔
    ∃ table entries, Announces (before.rest.map TextLine.words) table entries ∧
      ¬ table.Fits host entries := by
  unfold profileOn profileWith
  simp only [stops_run_liftM_bind_iff, gives_operation_iff, gives_nextPositive_iff,
    gives_nextNumber_iff, gives_aliasTable_iff, stops_run_allocate_bind_iff]
  constructor
  · rintro ⟨op, _, _, ⟨nameLine, ⟨hname, -⟩, hop, -⟩, groupSize, _, _,
      ⟨sizeLine, ⟨hsize, -⟩, hgroup, -⟩, aliasCount, _, _, ⟨countLine, ⟨hcount, -⟩, haliasCount, -⟩,
      hstops⟩
    have hheading := IsHeading.mk ⟨op, hop⟩ ⟨groupSize, hgroup⟩ haliasCount
    rw [hname, hsize, hcount]
    rcases hstops with hunfit | ⟨_, _, _, ⟨aliasLines, aliases, ⟨haliasLines, -⟩, rfl, haliases, -⟩,
      rangeCount, _, _, ⟨rangeCountLine, ⟨hrangeCountLine, -⟩, hrangeCount, -⟩, hunfit | hstops⟩
    · exact ⟨.aliases, aliasCount, .aliases hheading _, hunfit⟩
    · rw [haliasLines, hrangeCountLine]
      simp only [List.map_append, List.map_cons, List.cons_append, List.nil_append]
      exact ⟨.ranges, rangeCount, .ranges hheading haliases hrangeCount _, hunfit⟩
    · obtain ⟨_, _, _, -, hstops⟩ := hstops
      exact absurd hstops (mirrors_pure _).not_stops
  · rintro ⟨table, entries, hannounces, hunfit⟩
    generalize hrows : before.rest.map TextLine.words = rows at hannounces
    cases hannounces with
    | aliases hheading rest =>
      obtain ⟨⟨op, hop⟩, ⟨groupSize, hgroup⟩, haliasCount⟩ := hheading
      obtain ⟨nameLine, _, hname, rfl, hfromSize⟩ := Cursor.map_words_eq_cons_iff.mp hrows
      obtain ⟨sizeLine, _, hsize, rfl, hfromCount⟩ := Cursor.map_words_eq_cons_iff.mp hfromSize
      obtain ⟨countLine, _, hcount, rfl, -⟩ := Cursor.map_words_eq_cons_iff.mp hfromCount
      exact ⟨op, _, _, ⟨nameLine, hname, hop, rfl⟩, groupSize, _, _,
        ⟨sizeLine, hsize, hgroup, rfl⟩, entries, _, _, ⟨countLine, hcount, haliasCount, rfl⟩,
        .inl hunfit⟩
    | @ranges _ _ _ _ _ _ aliases hheading haliases hrangeCount rest =>
      obtain ⟨⟨op, hop⟩, ⟨groupSize, hgroup⟩, haliasCount⟩ := hheading
      obtain ⟨nameLine, _, hname, rfl, hfromSize⟩ := Cursor.map_words_eq_cons_iff.mp hrows
      obtain ⟨sizeLine, _, hsize, rfl, hfromCount⟩ := Cursor.map_words_eq_cons_iff.mp hfromSize
      obtain ⟨countLine, _, hcount, rfl, hfromAliases⟩ :=
        Cursor.map_words_eq_cons_iff.mp hfromCount
      obtain ⟨aliasLines, _, haliasLines, rfl, hfromRangeCount⟩ :=
        Cursor.map_words_eq_append_iff.mp hfromAliases
      obtain ⟨rangeCountLine, _, hrangeLine, rfl, -⟩ :=
        Cursor.map_words_eq_cons_iff.mp hfromRangeCount
      exact ⟨op, _, _, ⟨nameLine, hname, hop, rfl⟩, groupSize, _, _,
        ⟨sizeLine, hsize, hgroup, rfl⟩, aliases.length, _, _,
        ⟨countLine, hcount, haliasCount, rfl⟩,
        .inr ⟨_, _, _, ⟨aliasLines, aliases, haliasLines, rfl, haliases, rfl, rfl⟩, entries, _, _,
          ⟨rangeCountLine, hrangeLine, hrangeCount, rfl⟩, .inl hunfit⟩⟩

end Reader

/-! ### Texts, files and directories -/

section

variable {α : Type} {host : Host} {path text : String}

/-- Only the faults become errors: the events and what stops stay the same. -/
theorem run_withErrors (path : String) (action : ExceptT Fault (OptionT Logged) α) :
    (withErrors path action).run.run =
      ⟨action.run.run.value.map fun result => (result.mapError fun fault =>
        .malformedProfile path fault.line fault.cause.message), action.run.run.events⟩ := by
  obtain ⟨result, events⟩ := action
  cases result <;> exact congrArg (Logged.mk _) (List.append_nil _)

/-- Turning faults into errors stops nothing else. -/
theorem stops_withErrors_iff {action : ExceptT Fault (OptionT Logged) α} :
    Stops (withErrors path action) ↔ Stops action := by
  unfold Stops
  rw [run_withErrors, Option.map_eq_none_iff]

/-- Turning faults into errors keeps a computation on the course of the ideal one. -/
theorem Follows.withErrors {action : ExceptT Fault (OptionT Logged) α}
    {ideal : ExceptT Fault Logged α} (hfollows : Follows action ideal) :
    Follows (withErrors path action) (Profile.withErrors path ideal) := by
  intro hstops
  unfold Mirrors
  rw [run_withErrors, (hfollows (mt stops_withErrors_iff.mpr hstops) : _ = _)]
  exact congrArg (Logged.mk _) (List.append_nil _).symm

/-- Reading a text with limited memory follows reading it without a limit. -/
theorem follows_ofTextOn : Follows (ofTextOn host path text) (ofText path text) := by
  refine Follows.withErrors ?_
  refine (Reader.follows_run_profileOn host path _).bind fun _ _ => Mirrors.follows ?_
  exact (mirrors_liftM _).bind fun _ => mirrors_pure _

/-- Reading a text stops just when one of its announced tables exceeds the memory. -/
theorem stops_ofTextOn_iff : Stops (ofTextOn host path text) ↔ Exceeds host text := by
  have hrest (profile : Profile) (cursor : Cursor) :
      ¬ Stops (do
        liftM (reportRest path profile cursor.rest.length)
        pure profile : ExceptT Fault (OptionT Logged) Profile) :=
    ((mirrors_liftM _).bind fun _ => mirrors_pure profile).not_stops
  unfold ofTextOn readWith Exceeds
  rw [stops_withErrors_iff, (Reader.follows_run_profileOn host path _).stops_bind_iff,
    Reader.stops_run_profileOn_iff, map_words_significantLines]
  refine or_iff_left ?_
  rintro ⟨result, -, hstops⟩
  exact hrest result.1 result.2 hstops

/-- The file holds a text that announces a table for which the machine has no memory. -/
def FileExceeds (host : Host) (path : String) : Prop :=
  ∃ text, host.readText path = .ok text ∧ Exceeds host text

/-- Reading a file with limited memory follows reading it without a limit. -/
theorem follows_ofFileOn : Follows (ofFileOn host path) (ofFile host path) := by
  unfold ofFileOn ofFile ofFileWith
  cases host.readText path with
  | error cause => exact (mirrors_throw _).follows
  | ok text => exact follows_ofTextOn

/-- Reading a file stops just when its text exceeds the memory. -/
theorem stops_ofFileOn_iff : Stops (ofFileOn host path) ↔ FileExceeds host path := by
  unfold ofFileOn ofFileWith FileExceeds
  cases host.readText path with
  | error cause => exact iff_of_false (mirrors_throw _).not_stops (by simp)
  | ok text => simpa using stops_ofTextOn_iff

section

variable {event : Logged Unit}

/-- A file is announced before it is read. -/
theorem follows_report_ofFileOn : Follows (do liftM event; ofFileOn host path)
    (do liftM event; ofFile host path) :=
  (mirrors_liftM event).follows.bind fun _ _ => follows_ofFileOn

/-- Reading a file after an event is logged stops just when the text of the file exceeds the
memory. -/
theorem stops_report_ofFileOn_iff : Stops (do liftM event; ofFileOn host path) ↔
    FileExceeds host path := by
  rw [(mirrors_liftM event).follows.stops_bind_iff, or_iff_right (mirrors_liftM event).not_stops,
    ← stops_ofFileOn_iff]
  exact ⟨fun ⟨_, _, hstops⟩ => hstops, fun hstops => ⟨(), rfl, hstops⟩⟩

/-- An event that is logged before a file is read does not change what is read. -/
theorem value_report_ofFile {files : Files} :
    (do liftM event; ofFile files path : ExceptT Error Logged Profile).run.value =
      (ofFile files path).run.value := rfl

end

/-- Reading a directory with limited memory follows reading it without a limit. -/
theorem follows_ofDirectoryOn : Follows (ofDirectoryOn host path) (ofDirectory host path) := by
  unfold ofDirectoryOn ofDirectory ofDirectoryWith
  cases host.list path with
  | error cause => exact (mirrors_throw _).follows
  | ok entries =>
    exact follows_mapM fun _ => follows_report_ofFileOn

/-- **Reading a directory stops exactly at a file with a table that does not fit, provided that all
files before it hold profiles.** -/
theorem stops_ofDirectoryOn_iff : Stops (ofDirectoryOn host path) ↔
    ∃ entries, host.list path = .ok entries ∧
      ∃ earlier name later, fileNames entries = earlier ++ name :: later ∧
        (∀ other ∈ earlier, ∃ profile,
          (ofFile host (Files.join path other)).run.value = .ok profile) ∧
        FileExceeds host (Files.join path name) := by
  unfold ofDirectoryOn ofDirectoryWith
  cases host.list path with
  | error cause => exact iff_of_false (mirrors_throw _).not_stops (by simp)
  | ok entries =>
    dsimp only
    rw [stops_mapM_iff fun name => follows_report_ofFileOn]
    simp only [value_report_ofFile, stops_report_ofFileOn_iff, Except.ok.injEq, exists_eq_left']

end

end CollectiveTuner.Profile
