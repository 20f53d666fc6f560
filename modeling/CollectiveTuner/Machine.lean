import CollectiveTuner.Files

/-!
# The machine of a run

The lengths that the library computes are words of 64 bits, and memory comes in blocks of a limited
length. A build of the library either stops at a product that leaves its word, or goes on with what
is left of it there. Where a block of memory cannot be had, some calls fail and others stop without
a result.
-/

namespace CollectiveTuner

/-- What a build does with a product that does not fit in a word. -/
inductive Overflow
  | stops
  | wraps
  deriving DecidableEq, Repr

namespace Overflow

/-- The word that a product of words comes to, unless the build stops there. -/
def word : Overflow → Nat → Option Nat
  | stops, product => if product < UInt64.size then some product else none
  | wraps, product => some (product % UInt64.size)

/-- Both builds compute a product that fits in a word. -/
@[simp] theorem word_of_lt (overflow : Overflow) {product : Nat} (hword : product < UInt64.size) :
    overflow.word product = some product := by
  cases overflow with
  | stops => exact if_pos hword
  | wraps => exact congrArg some (Nat.mod_eq_of_lt hword)

end Overflow

/-- The machine that a run finds: its files and its memory. -/
structure Host extends Files where
  /-- The bytes from which on a block of memory cannot be had. -/
  refusedBytes : Nat
  /-- No block of memory is longer than half of the addresses. -/
  refusedBytes_le : refusedBytes ≤ UInt64.size / 2
  /-- The bytes of a hash table that has room for so many entries of so many bytes. -/
  hashTableBytes : Nat → Nat → Nat
  /-- A hash table is no shorter than its entries. -/
  le_hashTableBytes : ∀ entries entryBytes, entries * entryBytes ≤ hashTableBytes entries entryBytes

instance : Coe Host Files := ⟨Host.toFiles⟩

/-- A machine with these files, where a block of memory can be as long as a buffer can, and a hash
table has no room to spare. -/
def Files.host (files : Files) : Host where
  toFiles := files
  refusedBytes := UInt64.size / 2
  refusedBytes_le := Nat.le_refl _
  hashTableBytes entries entryBytes := entries * entryBytes
  le_hashTableBytes _ _ := Nat.le_refl _

end CollectiveTuner
