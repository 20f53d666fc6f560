import CollectiveTuner.Scratch.Arena
import Mathlib

/-!
# Shapes of scratch space

Whether a pool hands out a region, and which one, depends on its shape and not on what its
elements are. The arenas of a group have the same shape at the same point of a call, so either
every rank gets its scratch space or no rank does.
-/

namespace CollectiveTuner.Scratch

/-- A pool without its name and its elements. -/
structure Shape where
  /-- Bytes in one element. -/
  wordSize : Nat
  /-- Number of elements. -/
  capacity : Nat
  /-- A region holds the first slot. -/
  firstHeld : Bool
  /-- A region holds the second slot. -/
  secondHeld : Bool
  /-- Where the second slot begins. -/
  boundary : Nat
  deriving DecidableEq, Repr

namespace Shape

/-- A pool of which no region is handed out. -/
def free (wordSize capacity : Nat) : Shape :=
  { wordSize, capacity, firstHeld := false, secondHeld := false, boundary := 0 }

/-- A pool of which only the first slot is handed out. -/
def half (wordSize capacity length : Nat) : Shape :=
  { wordSize, capacity, firstHeld := true, secondHeld := false, boundary := length }

end Shape

namespace Pool

variable {α : Type}

/-- The shape of a pool. -/
def shape (pool : Pool α) : Shape :=
  { wordSize := pool.wordSize, capacity := pool.capacity, firstHeld := pool.firstHeld,
    secondHeld := pool.secondHeld, boundary := pool.boundary }

/-- Writing what a region holds changes nothing. -/
theorem write_read (pool : Pool α) (region : Region) :
    pool.write region (pool.read region) = pool := by
  have hcell : (pool.write region (pool.read region)).cell = pool.cell := by
    funext i
    simp only [write, read]
    split
    · next h =>
      have hi : i - region.offset < region.length := by
        simp only [Region.stop] at h
        omega
      simp [hi, Nat.add_sub_cancel' h.1]
    · rfl
  cases pool
  simp only [write, mk.injEq, true_and] at hcell ⊢
  exact hcell

/-- Elements that take up `bytes` bytes when one takes up one byte. -/
theorem elementsFor_one {pool : Pool α} (hword : pool.wordSize = 1) (bytes : Nat) :
    pool.elementsFor bytes = bytes := by
  rw [elementsFor, hword, Nat.add_sub_cancel, Nat.div_one]

/-- Whole elements take up as many bytes as they have. -/
theorem elementsFor_mul {pool : Pool α} {wordSize : Nat} (hword : pool.wordSize = wordSize)
    (hpos : 0 < wordSize) (length : Nat) : pool.elementsFor (length * wordSize) = length := by
  rw [elementsFor, hword, Nat.add_sub_assoc hpos, Nat.add_comm, Nat.add_mul_div_right _ _ hpos,
    Nat.div_eq_of_lt (by omega), Nat.zero_add]

section Grab

variable {pool : Pool α} {wordSize capacity boundary bytes length : Nat}

/-- A free pool hands out its first slot when it is large enough. -/
theorem grab_first (hshape : pool.shape = .free wordSize capacity)
    (hlength : pool.elementsFor bytes = length) (hfits : length ≤ capacity) :
    pool.grab .first bytes = .ok (⟨.first, 0, length⟩, pool.hold .first length) := by
  obtain ⟨rfl, rfl, hfirst, hsecond, hboundary⟩ := Shape.mk.inj hshape
  have hroom : ¬ (pool.isRefused .first = true ∨ pool.available .first < length) := by
    simp [available, isRefused, slotOffset, hfirst, hsecond, hfits]
  simp only [grab, hlength, if_neg hroom]
  rfl

/-- A first region larger than the pool is refused. -/
theorem grab_first_error (hshape : pool.shape = .free wordSize capacity)
    (hlength : pool.elementsFor bytes = length) (hlarge : capacity < length) :
    ∃ error, pool.grab .first bytes = .error error := by
  obtain ⟨rfl, rfl, hfirst, hsecond, hboundary⟩ := Shape.mk.inj hshape
  have hroom : pool.isRefused .first = true ∨ pool.available .first < length := by
    simp [available, isRefused, slotOffset, hfirst, hsecond, hlarge]
  simp only [grab, hlength, if_pos hroom]
  exact ⟨_, rfl⟩

/-- The second slot begins where the first one ends. -/
theorem grab_second (hshape : pool.shape = .half wordSize capacity boundary)
    (hlength : pool.elementsFor bytes = length) (hfits : length ≤ capacity - boundary) :
    pool.grab .second bytes = .ok (⟨.second, boundary, length⟩, pool.hold .second length) := by
  obtain ⟨rfl, rfl, hfirst, hsecond, rfl⟩ := Shape.mk.inj hshape
  have hroom : ¬ (pool.isRefused .second = true ∨ pool.available .second < length) := by
    simp [available, isRefused, slotOffset, hsecond, hfits]
  simp only [grab, hlength, if_neg hroom]
  rfl

/-- A second region larger than what is left of the pool is refused. -/
theorem grab_second_error (hshape : pool.shape = .half wordSize capacity boundary)
    (hlength : pool.elementsFor bytes = length) (hlarge : capacity - boundary < length) :
    ∃ error, pool.grab .second bytes = .error error := by
  obtain ⟨rfl, rfl, hfirst, hsecond, rfl⟩ := Shape.mk.inj hshape
  have hroom : pool.isRefused .second = true ∨ pool.available .second < length := by
    simp [available, isRefused, slotOffset, hsecond, hlarge]
  simp only [grab, hlength, if_pos hroom]
  exact ⟨_, rfl⟩

/-- Behind a first region the rest of the pool is left. -/
theorem shape_hold_first (hshape : pool.shape = .free wordSize capacity) :
    (pool.hold .first length).shape = .half wordSize capacity length := by
  obtain ⟨rfl, rfl, hfirst, hsecond, hboundary⟩ := Shape.mk.inj hshape
  simp [shape, hold, Shape.half, hsecond]

end Grab

/-- A new pool is free. -/
theorem shape_of_allocate {refusedBytes wordSize bytes : Nat} {name : String} {blank : α}
    {pool : Pool α} (hallocate : allocate refusedBytes name wordSize blank bytes = .ok pool) :
    pool.shape = .free wordSize (bytes / wordSize) := by
  unfold allocate at hallocate
  dsimp only at hallocate
  split at hallocate
  · cases hallocate
  · cases hallocate
    rfl

end Pool

namespace Arena

/-- The pools of an arena have these capacities, whatever is handed out. -/
def Sized (messages integers : Nat) (arena : Arena) : Prop :=
  arena.messages.wordSize = 1 ∧ arena.messages.capacity = messages ∧
    arena.integers.wordSize = countSize ∧ arena.integers.capacity = integers

/-- Nothing of an arena with these capacities is handed out. -/
def Ready (messages integers : Nat) (arena : Arena) : Prop :=
  arena.messages.shape = .free 1 messages ∧ arena.integers.shape = .free countSize integers

/-- An arena of which nothing is handed out has its capacities. -/
theorem Ready.sized {messages integers : Nat} {arena : Arena}
    (hready : arena.Ready messages integers) : arena.Sized messages integers :=
  ⟨congrArg Shape.wordSize hready.1, congrArg Shape.capacity hready.1,
    congrArg Shape.wordSize hready.2, congrArg Shape.capacity hready.2⟩

/-- Giving scratch space back makes the arena ready. -/
theorem Sized.ready_release {messages integers : Nat} {arena : Arena}
    (hsized : arena.Sized messages integers) : arena.release.Ready messages integers := by
  obtain ⟨hword, hcapacity, hword', hcapacity'⟩ := hsized
  simp [Ready, release, Pool.release, Pool.shape, Shape.free, hword, hcapacity, hword', hcapacity']

/-- A new arena is ready. -/
theorem ready_of_allocate {refusedBytes messageBytes integerBytes : Nat} {arena : Arena}
    (hallocate : allocate refusedBytes messageBytes integerBytes = .ok arena) :
    arena.Ready messageBytes (integerBytes / countSize) := by
  unfold allocate at hallocate
  cases hmessages : Pool.allocate refusedBytes "msg" 1 (0 : UInt8) messageBytes with
  | error error =>
    rw [hmessages] at hallocate
    cases hallocate
  | ok messages =>
    cases hintegers : Pool.allocate refusedBytes "int" countSize 0 integerBytes with
    | error error =>
      rw [hmessages, hintegers] at hallocate
      cases hallocate
    | ok integers =>
      rw [hmessages, hintegers] at hallocate
      cases hallocate
      have hshape := Pool.shape_of_allocate hmessages
      rw [Nat.div_one] at hshape
      exact ⟨hshape, Pool.shape_of_allocate hintegers⟩

end Arena

end CollectiveTuner.Scratch
