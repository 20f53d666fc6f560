import CollectiveTuner.Error

/-!
# Scratch pools

A pool hands out at most two regions at a time. The first slot starts at the base of the
pool and fixes the boundary where the second slot begins, so the two regions are disjoint.
What a region holds stays in the pool after its release.
-/

namespace CollectiveTuner.Scratch

/-- One of the two places in a pool that a region can take. -/
inductive Slot
  | first
  | second
  deriving DecidableEq, Repr

/-- The number of a slot in messages. -/
def Slot.number : Slot → Nat
  | first => 1
  | second => 2

/-- A part of a pool that has been handed out. -/
structure Region where
  /-- The slot that the region took. -/
  slot : Slot
  /-- Index of the first element. -/
  offset : Nat
  /-- Number of elements. -/
  length : Nat
  deriving DecidableEq, Repr

namespace Region

/-- Index after the last element. -/
def stop (region : Region) : Nat :=
  region.offset + region.length

/-- The first `length` elements of a region. -/
def shorten (region : Region) (length : Nat) : Region :=
  { region with length }

end Region

/-- A pool of elements of type `α`. -/
structure Pool (α : Type) where
  /-- The name of the pool in messages. -/
  name : String
  /-- Bytes in one element. -/
  wordSize : Nat
  /-- Number of elements. -/
  capacity : Nat
  /-- A region holds the first slot. -/
  firstHeld : Bool
  /-- A region holds the second slot. -/
  secondHeld : Bool
  /-- Where the second slot begins. -/
  boundary : Nat
  /-- The element at each index. Only those below the capacity matter. -/
  cell : Nat → α

namespace Pool

variable {α : Type}

/-- A pool of as many elements as fit in `bytes` bytes, all of them `blank`. It cannot be had when
it takes as many bytes as are refused. -/
def allocate (refusedBytes : Nat) (name : String) (wordSize : Nat) (blank : α) (bytes : Nat) :
    Except Error (Pool α) :=
  let capacity := bytes / wordSize
  if refusedBytes ≤ capacity * wordSize then throw (.allocationFailure name bytes)
  else
    pure
      { name, wordSize, capacity, firstHeld := false, secondHeld := false, boundary := 0,
        cell := fun _ => blank }

/-- The size of the pool in bytes, which leaves out a last incomplete element. -/
def capacityBytes (pool : Pool α) : Nat :=
  pool.capacity * pool.wordSize

/-- A region holds this slot. -/
def isHeld (pool : Pool α) : Slot → Bool
  | .first => pool.firstHeld
  | .second => pool.secondHeld

/-- The number of elements that `bytes` bytes occupy. -/
def elementsFor (pool : Pool α) (bytes : Nat) : Nat :=
  (bytes + pool.wordSize - 1) / pool.wordSize

/-- Where a region in this slot begins. -/
def slotOffset (pool : Pool α) : Slot → Nat
  | .first => 0
  | .second => pool.boundary

/-- A slot is refused while it is held. The first slot is also refused while the second is
held, because it would move the boundary. -/
def isRefused (pool : Pool α) : Slot → Bool
  | .first => pool.firstHeld || pool.secondHeld
  | .second => pool.secondHeld

/-- Elements that a region in this slot can have now. -/
def available (pool : Pool α) (slot : Slot) : Nat :=
  if pool.isRefused slot then 0 else pool.capacity - pool.slotOffset slot

/-- The pool with a region of `length` elements in `slot`. -/
def hold (pool : Pool α) (slot : Slot) (length : Nat) : Pool α :=
  match slot with
  | .first => { pool with firstHeld := true, boundary := length }
  | .second => { pool with secondHeld := true }

/-- Hands out a region of `bytes` bytes, rounded up to whole elements. -/
def grab (pool : Pool α) (slot : Slot) (bytes : Nat) : Except Error (Region × Pool α) :=
  let length := pool.elementsFor bytes
  if pool.isRefused slot = true ∨ pool.available slot < length then
    throw (.noSpaceLeft pool.name slot.number length (pool.available slot))
  else pure ({ slot, offset := pool.slotOffset slot, length }, pool.hold slot length)

/-- Takes both slots back. The elements stay. -/
def release (pool : Pool α) : Pool α :=
  { pool with firstHeld := false, secondHeld := false, boundary := 0 }

/-- The elements of a region. -/
def read (pool : Pool α) (region : Region) : List α :=
  (List.range region.length).map fun i => pool.cell (region.offset + i)

/-- Replaces the first elements of a region. Elements beyond its end are dropped. -/
def write (pool : Pool α) (region : Region) (elements : List α) : Pool α :=
  let stored := elements.toArray
  { pool with
    cell := fun i =>
      if region.offset ≤ i ∧ i < region.stop then
        stored[i - region.offset]?.getD (pool.cell i)
      else pool.cell i }

/-- The elements of two regions that are borrowed together. The pool is split where the second
region begins, and there is nothing to borrow when the first region reaches beyond that place or
the second one beyond the end. -/
def pair? (pool : Pool α) (first second : Region) : Option (List α × List α) :=
  if first.stop ≤ second.offset ∧ second.offset ≤ pool.capacity ∧
      second.length ≤ pool.capacity - second.offset then
    some (pool.read first, pool.read second)
  else none

/-- As many elements are read as the region holds. -/
@[simp] theorem length_read (pool : Pool α) (region : Region) :
    (pool.read region).length = region.length := by
  simp [read]

/-- What was written to a region is read from it. -/
theorem read_write (pool : Pool α) (region : Region) {elements : List α}
    (hlength : elements.length = region.length) :
    (pool.write region elements).read region = elements := by
  apply List.ext_getElem
  · simp [hlength]
  · intro i hread helements
    have hi : i < region.length := by simpa using hread
    simp [read, write, Region.stop, hi, helements]

/-- Writing to a region leaves a disjoint one alone. -/
theorem read_write_of_disjoint (pool : Pool α) {region other : Region} (elements : List α)
    (hdisjoint : region.stop ≤ other.offset ∨ other.stop ≤ region.offset) :
    (pool.write region elements).read other = pool.read other := by
  refine List.map_congr_left fun i hi => ?_
  have hi : i < other.length := List.mem_range.mp hi
  have hout : ¬ (region.offset ≤ other.offset + i ∧ other.offset + i < region.stop) := by
    simp only [Region.stop] at hdisjoint ⊢
    omega
  simp only [write, if_neg hout]

end Pool

end CollectiveTuner.Scratch
