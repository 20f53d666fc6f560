import CollectiveTuner.Error

/-!
# Profiles

A profile says which algorithm of an operation is best for which message sizes, as measured
with one group size. Ranges may overlap, and the first one in file order that holds a size
decides. The profile table keeps at most one profile for each operation.
-/

namespace CollectiveTuner

/-- An interval of message sizes, ends included, with the algorithm chosen for it. -/
structure SizeRange where
  /-- The least size, in bytes. -/
  start : Nat
  /-- The greatest size, in bytes. -/
  stop : Nat
  /-- The identifier of the algorithm. -/
  algorithm : AlgorithmId
  deriving DecidableEq, Repr

namespace SizeRange

/-- The range holds the size. -/
def contains (range : SizeRange) (size : Nat) : Bool :=
  range.start ≤ size && size ≤ range.stop

/-- Some size is in both ranges, provided that no range is empty. -/
def overlaps (first second : SizeRange) : Bool :=
  first.start ≤ second.stop && second.start ≤ first.stop

end SizeRange

/-- The algorithm choices for one operation, measured with one group size. -/
structure Profile where
  /-- The operation. -/
  collective : Collective
  /-- The number of ranks in the measured group. -/
  groupSize : Nat
  /-- The choices in file order. -/
  ranges : List SizeRange
  deriving DecidableEq, Repr

namespace Profile

/-- The algorithm of the first range that holds the size. -/
def algorithmFor (profile : Profile) (size : Nat) : Except Error AlgorithmId :=
  match profile.ranges.find? fun range => range.contains size with
  | some range => pure range.algorithm
  | none => throw (.rangeNotMatched profile.collective size)

/-- The pairs of positions whose ranges overlap, from the first range on. The positions of the
list begin at `first`. -/
def overlapsFrom (first : Nat) : List SizeRange → List (Nat × Nat)
  | [] => []
  | range :: rest =>
    ((rest.zipIdx (first + 1)).filter fun later => range.overlaps later.1).map
        (fun later => (first, later.2)) ++
      overlapsFrom (first + 1) rest

/-- The pairs of positions whose ranges overlap, in lexicographic order. -/
def overlappingRanges (profile : Profile) : List (Nat × Nat) :=
  overlapsFrom 0 profile.ranges

end Profile

/-- At most one profile for each operation. -/
structure ProfileTable where
  /-- The profile of an operation. -/
  get? : Collective → Option Profile

namespace ProfileTable

/-- The table without profiles. -/
def empty : ProfileTable where
  get? _ := none

/-- Stores a profile in the place of its operation. -/
def insert (table : ProfileTable) (profile : Profile) : ProfileTable where
  get? := Collective.update table.get? profile.collective (some profile)

/-- An inserted profile is found for its operation, and every other operation finds what it found
before. -/
theorem get?_insert (table : ProfileTable) (profile : Profile) (op : Collective) :
    (table.insert profile).get? op =
      if op = profile.collective then some profile else table.get? op := rfl

/-- The profiles in table order. -/
def toList (table : ProfileTable) : List Profile :=
  Collective.all.filterMap table.get?

/-- The number of profiles. -/
def size (table : ProfileTable) : Nat :=
  table.toList.length

end ProfileTable

end CollectiveTuner
