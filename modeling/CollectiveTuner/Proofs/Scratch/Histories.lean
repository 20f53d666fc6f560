import CollectiveTuner.Decomposition.Attempt
import CollectiveTuner.Proofs.Communicator.Replies
import CollectiveTuner.Proofs.Scratch.Shapes

/-!
# A pool over its history

Both slots share the boundary of a pool, which a grab of the first slot sets, a grab of the second
one keeps and a release resets. What matters of a history is which regions have been granted since
the last release: they say which slots are held and where the second slot begins. From this it
follows that regions never overlap, whatever is grabbed and refused in which order.
-/

namespace CollectiveTuner.Scratch

namespace Pool

variable {α : Type} {pool : Pool α} {slot : Slot} {bytes : Nat}

/-- A grab is granted or refused, and says in either case what it was asked for and what there
is. -/
theorem grab_cases (pool : Pool α) (slot : Slot) (bytes : Nat) :
    (pool.isRefused slot = false ∧ pool.elementsFor bytes ≤ pool.capacity - pool.slotOffset slot ∧
      pool.grab slot bytes = .ok (⟨slot, pool.slotOffset slot, pool.elementsFor bytes⟩,
        pool.hold slot (pool.elementsFor bytes))) ∨
    ((pool.isRefused slot = true ∨ pool.capacity - pool.slotOffset slot < pool.elementsFor bytes) ∧
      pool.grab slot bytes = .error (.noSpaceLeft pool.name slot.number (pool.elementsFor bytes)
        (pool.available slot))) := by
  cases hrefused : pool.isRefused slot with
  | true =>
    refine .inr ⟨.inl rfl, ?_⟩
    simp only [grab, hrefused, true_or, if_true]
    rfl
  | false =>
    have havailable : pool.available slot = pool.capacity - pool.slotOffset slot := by
      rw [available, hrefused]
      rfl
    rcases Nat.lt_or_ge (pool.capacity - pool.slotOffset slot) (pool.elementsFor bytes) with
      hlarge | hfits
    · refine .inr ⟨.inr hlarge, ?_⟩
      rw [← havailable] at hlarge
      simp only [grab, hlarge, or_true, if_true]
      rfl
    · refine .inl ⟨rfl, hfits, ?_⟩
      have hroom : ¬ pool.available slot < pool.elementsFor bytes := by omega
      simp only [grab, hrefused, hroom, Bool.false_eq_true, or_false, if_false]
      rfl

/-- Regions are granted in either slot as long as they are not larger than the whole pool. -/
def IsOpen (pool : Pool α) : Prop :=
  ∀ slot bytes, bytes ≤ pool.capacityBytes →
    ∃ region after, pool.grab slot bytes = .ok (region, after)

/-- No more elements are asked for than the pool has when no more bytes are. -/
theorem elementsFor_le_of_le (hbytes : bytes ≤ pool.capacityBytes) :
    pool.elementsFor bytes ≤ pool.capacity := by
  rw [elementsFor]
  rcases Nat.eq_zero_or_pos pool.wordSize with hzero | hpos
  · rw [hzero, Nat.div_zero]
    exact Nat.zero_le _
  · rw [capacityBytes] at hbytes
    exact Nat.le_of_lt_succ (Nat.div_lt_of_lt_mul (by rw [Nat.mul_succ, Nat.mul_comm]; omega))

/-- Whatever was handed out before, after a release the whole pool can be grabbed. -/
theorem isOpen_release (pool : Pool α) : pool.release.IsOpen := by
  intro slot bytes hbytes
  have hfits : pool.release.elementsFor bytes ≤ pool.release.capacity := elementsFor_le_of_le hbytes
  rcases pool.release.grab_cases slot bytes with ⟨-, -, hgrab⟩ | ⟨hrefused | hlarge, -⟩
  · exact ⟨_, _, hgrab⟩
  · cases slot <;> cases hrefused
  · cases slot <;> exact absurd hfits (Nat.not_le_of_lt hlarge)

end Pool

/-- A step in the use of a pool. -/
inductive Step (α : Type)
  | grab (slot : Slot) (bytes : Nat)
  | write (region : Region) (elements : List α)
  | release
  | lease
  | drop

/-- A pool and the regions granted since the last release or drop of a lease, newest first. -/
structure Usage (α : Type) where
  pool : Pool α
  granted : List Region

namespace Usage

variable {α : Type}

/-- What a step leaves. A refused grab leaves everything as it is, and so does taking out a lease.
Leases nest, and the drop of any of them releases the pool. -/
def next (usage : Usage α) : Step α → Usage α
  | .grab slot bytes =>
    match usage.pool.grab slot bytes with
    | .ok (region, pool) => { pool, granted := region :: usage.granted }
    | .error _ => usage
  | .write region elements => { usage with pool := usage.pool.write region elements }
  | .lease => usage
  | .release | .drop => { pool := usage.pool.release, granted := [] }

/-- What a history leaves. -/
def after (usage : Usage α) (history : List (Step α)) : Usage α :=
  history.foldl next usage

/-- Where a slot begins, given the regions that are granted: the second one where the region in
the first one ends, and at the base of the pool without such a region. -/
def offset (usage : Usage α) : Slot → Nat
  | .first => 0
  | .second => ((usage.granted.find? fun region => region.slot = .first).map Region.stop).getD 0

/-- No region is granted in this slot. -/
def IsFree (usage : Usage α) (slot : Slot) : Prop :=
  ∀ region ∈ usage.granted, region.slot ≠ slot

instance (usage : Usage α) (slot : Slot) : Decidable (usage.IsFree slot) :=
  inferInstanceAs (Decidable (∀ region ∈ usage.granted, region.slot ≠ slot))

/-- A slot can be grabbed when it is free. The second one has to be free for the first one too. -/
def CanGrab (usage : Usage α) (slot : Slot) : Prop :=
  usage.IsFree slot ∧ (slot = .first → usage.IsFree .second)

instance (usage : Usage α) (slot : Slot) : Decidable (usage.CanGrab slot) :=
  inferInstanceAs (Decidable (_ ∧ _))

/-- What holds throughout the history of a pool: its flags and its boundary are those of the
granted regions, and these lie apart inside the pool, each in a slot of its own. -/
structure Sound (start : Pool α) (usage : Usage α) : Prop where
  name : usage.pool.name = start.name
  wordSize : usage.pool.wordSize = start.wordSize
  capacity : usage.pool.capacity = start.capacity
  free : ∀ slot, usage.pool.isHeld slot = false ↔ usage.IsFree slot
  offset : ∀ slot, usage.pool.slotOffset slot = usage.offset slot
  slots : (usage.granted.map Region.slot).Nodup
  inside : ∀ region ∈ usage.granted, region.stop ≤ start.capacity
  apart : ∀ first ∈ usage.granted, ∀ second ∈ usage.granted,
    first.slot = .first → second.slot = .second → first.stop ≤ second.offset

variable {start : Pool α} {usage : Usage α} {slot : Slot} {bytes : Nat}

/-- When both slots are free, no region is granted. -/
theorem granted_eq_nil (hfirst : usage.IsFree .first) (hsecond : usage.IsFree .second) :
    usage.granted = [] := by
  rw [List.eq_nil_iff_forall_not_mem]
  intro region hregion
  cases hslot : region.slot with
  | first => exact hfirst region hregion hslot
  | second => exact hsecond region hregion hslot

namespace Sound

/-- A pool of which nothing is handed out. -/
theorem of_free {wordSize capacity : Nat} (hfree : start.shape = .free wordSize capacity) :
    Sound start ⟨start, []⟩ := by
  obtain ⟨-, -, hfirst, hsecond, hboundary⟩ := Shape.mk.inj hfree
  refine ⟨rfl, rfl, rfl, fun slot => ?_, fun slot => ?_, List.nodup_nil, ?_, ?_⟩
  · cases slot <;> simp [Pool.isHeld, IsFree, hfirst, hsecond]
  · cases slot <;> simp [Pool.slotOffset, Usage.offset, hboundary]
  · exact fun region hregion => absurd hregion List.not_mem_nil
  · exact fun region hregion => absurd hregion List.not_mem_nil

variable (hsound : Sound start usage)

include hsound

/-- A slot is not refused when it can be grabbed. -/
theorem isRefused_eq_false_iff : usage.pool.isRefused slot = false ↔ usage.CanGrab slot := by
  cases slot with
  | first => simp [Pool.isRefused, CanGrab, ← hsound.free, Pool.isHeld]
  | second => simp [Pool.isRefused, CanGrab, ← hsound.free, Pool.isHeld]

/-- A grab, said by the granted regions alone. -/
theorem grab_cases (slot : Slot) (bytes : Nat) :
    ((usage.CanGrab slot ∧ bytes ⌈/⌉ start.wordSize ≤ start.capacity - usage.offset slot) ∧
      usage.pool.grab slot bytes =
        .ok (⟨slot, usage.offset slot, bytes ⌈/⌉ start.wordSize⟩,
          usage.pool.hold slot (bytes ⌈/⌉ start.wordSize))) ∨
    (¬ (usage.CanGrab slot ∧ bytes ⌈/⌉ start.wordSize ≤ start.capacity - usage.offset slot) ∧
      usage.pool.grab slot bytes = .error (.noSpaceLeft start.name slot.number
        (bytes ⌈/⌉ start.wordSize)
        (if usage.CanGrab slot then start.capacity - usage.offset slot else 0))) := by
  have hlength : usage.pool.elementsFor bytes = bytes ⌈/⌉ start.wordSize := by
    rw [Pool.elementsFor, hsound.wordSize, Nat.ceilDiv_eq_add_pred_div]
  have havailable : usage.pool.available slot =
      if usage.CanGrab slot then start.capacity - usage.offset slot else 0 := by
    rw [Pool.available, hsound.capacity, hsound.offset]
    by_cases hcan : usage.CanGrab slot
    · rw [if_pos hcan, hsound.isRefused_eq_false_iff.mpr hcan]
      rfl
    · rw [if_neg hcan, if_pos (by simpa using mt hsound.isRefused_eq_false_iff.mp hcan)]
  have hcases := usage.pool.grab_cases slot bytes
  rw [hlength, havailable, hsound.capacity, hsound.offset, hsound.name] at hcases
  rcases hcases with ⟨hrefused, hfits, hgrab⟩ | ⟨hrefused | hlarge, hgrab⟩
  · exact .inl ⟨⟨hsound.isRefused_eq_false_iff.mp hrefused, hfits⟩, hgrab⟩
  · refine .inr ⟨fun hgranted => ?_, hgrab⟩
    rw [hsound.isRefused_eq_false_iff.mpr hgranted.1] at hrefused
    cases hrefused
  · exact .inr ⟨fun hgranted => by omega, hgrab⟩

/-- There is one region at most in the first slot, so the second slot begins where it ends. -/
theorem offset_second {region : Region} (hregion : region ∈ usage.granted)
    (hslot : region.slot = .first) : usage.offset .second = region.stop := by
  rw [Usage.offset]
  cases hfind : usage.granted.find? fun region => region.slot = .first with
  | none => exact absurd hslot (by simpa using List.find?_eq_none.mp hfind region hregion)
  | some found =>
    have hfound : found.slot = .first := by simpa using List.find?_some hfind
    have hsame : found = region := List.inj_on_of_nodup_map hsound.slots
      (List.mem_of_find?_eq_some hfind) hregion (hfound.trans hslot.symm)
    rw [hsame]
    rfl

/-- Both slots begin inside the pool. -/
theorem offset_le (slot : Slot) : usage.offset slot ≤ start.capacity := by
  cases slot with
  | first => exact Nat.zero_le _
  | second =>
    by_cases hfree : usage.IsFree .first
    · have hnone : (usage.granted.find? fun region => region.slot = .first) = none := by
        rw [List.find?_eq_none]
        intro region hregion
        simpa using hfree region hregion
      rw [Usage.offset, hnone]
      exact Nat.zero_le _
    · simp only [IsFree, not_forall, not_not] at hfree
      obtain ⟨region, hregion, hslot⟩ := hfree
      rw [hsound.offset_second hregion hslot]
      exact hsound.inside region hregion

/-- Releasing a pool keeps it sound. -/
theorem release : Sound start ⟨usage.pool.release, []⟩ where
  name := hsound.name
  wordSize := hsound.wordSize
  capacity := hsound.capacity
  free slot := by cases slot <;> simp [Pool.isHeld, Pool.release, IsFree]
  offset slot := by cases slot <;> simp [Pool.slotOffset, Pool.release, Usage.offset]
  slots := List.nodup_nil
  inside region hregion := absurd hregion List.not_mem_nil
  apart region hregion := absurd hregion List.not_mem_nil

/-- When the first slot is granted, nothing else is. -/
theorem grab_first {length : Nat} (hgrab : usage.CanGrab .first)
    (hlength : length ≤ start.capacity) :
    Sound start ⟨usage.pool.hold .first length, ⟨.first, 0, length⟩ :: usage.granted⟩ := by
  have hsecond : usage.pool.secondHeld = false := (hsound.free .second).mpr (hgrab.2 rfl)
  rw [granted_eq_nil hgrab.1 (hgrab.2 rfl)]
  refine ⟨hsound.name, hsound.wordSize, hsound.capacity, fun slot => ?_, fun slot => ?_,
    List.nodup_singleton _, ?_, ?_⟩
  · cases slot <;> simp [Pool.isHeld, Pool.hold, IsFree, hsecond]
  · cases slot <;> simp [Pool.slotOffset, Pool.hold, Usage.offset, Region.stop]
  · intro region hregion
    rw [List.mem_singleton.mp hregion, Region.stop, Nat.zero_add]
    exact hlength
  · intro first hfirst second hsecond _ hslot
    rw [List.mem_singleton.mp hsecond] at hslot
    cases hslot

/-- When the second slot is granted, its region begins where the one in the first slot ends. -/
theorem grab_second {length : Nat} (hgrab : usage.CanGrab .second)
    (hlength : length ≤ start.capacity - usage.offset .second) :
    Sound start ⟨usage.pool.hold .second length,
      ⟨.second, usage.offset .second, length⟩ :: usage.granted⟩ := by
  have hoffset := hsound.offset_le .second
  refine ⟨hsound.name, hsound.wordSize, hsound.capacity, fun slot => ?_, fun slot => ?_, ?_, ?_, ?_⟩
  · cases slot with
    | first => simpa [Pool.isHeld, Pool.hold, IsFree] using hsound.free .first
    | second => simp [Pool.isHeld, Pool.hold, IsFree]
  · cases slot with
    | first => rfl
    | second => simpa [Pool.slotOffset, Pool.hold, Usage.offset] using hsound.offset .second
  · rw [List.map_cons, List.nodup_cons]
    refine ⟨fun hmem => ?_, hsound.slots⟩
    obtain ⟨region, hregion, hslot⟩ := List.mem_map.mp hmem
    exact hgrab.1 region hregion hslot
  · rintro region (_ | ⟨_, hregion⟩)
    · simp only [Region.stop]
      omega
    · exact hsound.inside region hregion
  · rintro first (_ | ⟨_, hfirst⟩) second (_ | ⟨_, hsecond⟩) hslot hslot'
    · cases hslot
    · cases hslot
    · exact (hsound.offset_second hfirst hslot).ge
    · exact hsound.apart first hfirst second hsecond hslot hslot'

/-- Every step preserves what holds throughout a history. -/
theorem next (step : Step α) : Sound start (usage.next step) := by
  cases step with
  | grab slot bytes =>
    rcases hsound.grab_cases slot bytes with ⟨⟨hcan, hfits⟩, hgrab⟩ | ⟨-, hgrab⟩
    · rw [Usage.next, hgrab]
      cases slot with
      | first => exact hsound.grab_first hcan hfits
      | second => exact hsound.grab_second hcan hfits
    · rw [Usage.next, hgrab]
      exact hsound
  | write region elements =>
    exact ⟨hsound.name, hsound.wordSize, hsound.capacity, hsound.free, hsound.offset,
      hsound.slots, hsound.inside, hsound.apart⟩
  | lease => exact hsound
  | release | drop => exact hsound.release

/-- A pool stays sound over its history. -/
theorem after (history : List (Step α)) : Sound start (usage.after history) := by
  induction history generalizing usage with
  | nil => exact hsound
  | cons step rest ih => exact ih (hsound.next step)

/-- A region in the first slot and one in the second can be borrowed together. -/
theorem pair?_eq_some {first second : Region} (hsecond : second ∈ usage.granted)
    (hapart : first.stop ≤ second.offset) :
    usage.pool.pair? first second = some (usage.pool.read first, usage.pool.read second) := by
  have hinside := hsound.inside second hsecond
  rw [← hsound.capacity, Region.stop] at hinside
  rw [Pool.pair?, if_pos ⟨hapart, by omega, by omega⟩]

end Sound

/-- Whatever a computation with a lease does and however it ends, it leaves its arena released. -/
theorem exists_release_of_withLease {β : Type} (body : Attempt β) (workspace : Workspace)
    (replies : Replies) : ∃ arena : Arena,
      (((Attempt.withLease body).run.run workspace).answered replies).1.2.arena =
        arena.release := by
  have hrun : (Attempt.withLease body).run.run workspace =
      (body.run.run workspace).bind fun result =>
        .done (result.1, { result.2 with arena := result.2.arena.release }) := rfl
  rw [hrun, Script.answered, Script.answeredFrom_bind]
  exact ⟨_, rfl⟩

/-- **Regions of a pool are safe over any history.** Let a pool be used in any way: grabs that are
granted or refused, writes, releases, and leases that are taken out and dropped, in any order.

Of the regions granted since the last release or drop, there is one at most in each slot, each lies
inside the pool, and one in the first slot ends before one in the second slot begins. So both can be
borrowed together, and writing one leaves the other as it is. A grab succeeds exactly when its slot
is free, the second slot too for the first one, and the elements fit behind the place where the slot
begins; then it grants just these elements. Otherwise it says what was asked for and what there is,
and leaves everything as it was. After a release or drop the whole pool can be grabbed in either
slot, and so it can in both pools of an arena when a computation with a lease has ended, whatever
the computation did and however it ended. -/
theorem regions_are_safe {wordSize capacity : Nat} (hfree : start.shape = .free wordSize capacity)
    (history : List (Step α)) :
    let usage := (Usage.mk start []).after history
    (∀ slot, (usage.granted.filter fun region => region.slot = slot).length ≤ 1) ∧
    (∀ region ∈ usage.granted, region.stop ≤ capacity) ∧
    (∀ first ∈ usage.granted, ∀ second ∈ usage.granted,
      first.slot = .first → second.slot = .second →
        first.stop ≤ second.offset ∧
        usage.pool.pair? first second = some (usage.pool.read first, usage.pool.read second) ∧
        ∀ elements, (usage.pool.write first elements).read second = usage.pool.read second ∧
          (usage.pool.write second elements).read first = usage.pool.read first) ∧
    (∀ slot bytes,
      ((∃ region pool, usage.pool.grab slot bytes = .ok (region, pool)) ↔
        usage.CanGrab slot ∧ bytes ⌈/⌉ wordSize ≤ capacity - usage.offset slot) ∧
      (∀ region pool, usage.pool.grab slot bytes = .ok (region, pool) →
        region = ⟨slot, usage.offset slot, bytes ⌈/⌉ wordSize⟩) ∧
      ∀ error, usage.pool.grab slot bytes = .error error →
        error = .noSpaceLeft start.name slot.number (bytes ⌈/⌉ wordSize)
          (if usage.CanGrab slot then capacity - usage.offset slot else 0) ∧
        usage.next (.grab slot bytes) = usage) ∧
    (usage.next .release).pool.IsOpen ∧ (usage.next .drop).pool.IsOpen ∧
    ∀ (β : Type) (body : Attempt β) (workspace : Workspace) (replies : Replies),
      let left := (((Attempt.withLease body).run.run workspace).answered replies).1.2
      left.arena.messages.IsOpen ∧ left.arena.integers.IsOpen := by
  intro usage
  have hsound : Sound start usage := (Sound.of_free hfree).after history
  obtain ⟨rfl, rfl, -, -, -⟩ := Shape.mk.inj hfree
  refine ⟨fun slot => ?_, hsound.inside, fun first hfirst second hsecond hslot hslot' => ?_,
    fun slot bytes => ?_, usage.pool.isOpen_release, usage.pool.isOpen_release,
    fun β body workspace replies => ?_⟩
  · have hcount := List.nodup_iff_count_le_one.mp hsound.slots slot
    rw [List.count, List.countP_map, List.countP_eq_length_filter] at hcount
    exact hcount
  · have hapart := hsound.apart first hfirst second hsecond hslot hslot'
    exact ⟨hapart, hsound.pair?_eq_some hsecond hapart, fun elements =>
      ⟨usage.pool.read_write_of_disjoint elements (.inl hapart),
        usage.pool.read_write_of_disjoint elements (.inr hapart)⟩⟩
  · rcases hsound.grab_cases slot bytes with ⟨hcan, hgrab⟩ | ⟨hcannot, hgrab⟩
    · rw [hgrab]
      refine ⟨⟨fun _ => hcan, fun _ => ⟨_, _, rfl⟩⟩, fun region pool hok => ?_, nofun⟩
      cases hok
      rfl
    · rw [Usage.next, hgrab]
      refine ⟨⟨fun ⟨_, _, hok⟩ => (nomatch hok), fun hcan => absurd hcan hcannot⟩, nofun,
        fun error herror => ?_⟩
      cases herror
      exact ⟨rfl, rfl⟩
  · obtain ⟨arena, harena⟩ := exists_release_of_withLease body workspace replies
    simp only [harena]
    exact ⟨arena.messages.isOpen_release, arena.integers.isOpen_release⟩

/-- A pool of four words, of which the second slot is grabbed first. The first slot is refused until
the release, and what is refused once the first slot is held does not move the boundary. -/
theorem regions_are_safe_second_first :
    let start : Pool Nat :=
      { name := "int", wordSize := 4, capacity := 4, firstHeld := false, secondHeld := false,
        boundary := 0, cell := fun _ => 0 }
    let history : List (Step Nat) :=
      [.grab .second 5, .grab .first 4, .release, .grab .first 5, .lease, .grab .second 9,
        .grab .first 16, .grab .second 8, .write ⟨.first, 0, 2⟩ [7, 9]]
    let usage := (Usage.mk start []).after history
    usage.granted = [⟨.second, 2, 2⟩, ⟨.first, 0, 2⟩] ∧
      usage.pool.pair? ⟨.first, 0, 2⟩ ⟨.second, 2, 2⟩ = some ([7, 9], [0, 0]) ∧
      ¬ ∃ region pool, usage.pool.grab .first 0 = .ok (region, pool) := by
  intro start history usage
  have hgranted : usage.granted = [⟨.second, 2, 2⟩, ⟨.first, 0, 2⟩] := by decide
  obtain ⟨-, -, hpairs, hgrabs, -⟩ :=
    regions_are_safe (show start.shape = .free 4 4 from rfl) history
  have hfirst : ⟨.first, 0, 2⟩ ∈ usage.granted := by simp [hgranted]
  have hsecond : ⟨.second, 2, 2⟩ ∈ usage.granted := by simp [hgranted]
  obtain ⟨-, hpair, -⟩ := hpairs _ hfirst _ hsecond rfl rfl
  refine ⟨hgranted, hpair.trans (by decide), fun hgrab => ?_⟩
  exact ((hgrabs .first 0).1.mp hgrab).1.1 _ hfirst rfl

end Usage

end CollectiveTuner.Scratch
