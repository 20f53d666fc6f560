import CollectiveTuner.Catalog
import CollectiveTuner.Dictionary

/-!
# Recorded algorithms

The recorder remembers, for every operation and message size, the algorithm that produced the
last result. Its lines are ordered by operation and then by size.
-/

namespace CollectiveTuner

/-- For every operation, the last algorithm by message size. -/
structure Recorder where
  /-- The algorithms of one operation by message size. -/
  sizes : Collective → Dictionary Nat AlgorithmId

namespace Recorder

/-- A recorder that has recorded nothing. -/
def empty : Recorder where
  sizes _ := Dictionary.empty

/-- Records that an algorithm produced the result of a call of `size` bytes. -/
def record (recorder : Recorder) (op : Collective) (size : Nat) (id : AlgorithmId) : Recorder where
  sizes := Collective.update recorder.sizes op ((recorder.sizes op).insert size id)

/-- The algorithm recorded last for a message size. -/
def recorded? (recorder : Recorder) (op : Collective) (size : Nat) : Option AlgorithmId :=
  (recorder.sizes op).get? size

/-- After recording, the recorded algorithm is found for its operation and size. -/
theorem recorded?_record (recorder : Recorder) (op other : Collective) (size otherSize : Nat)
    (id : AlgorithmId) :
    (recorder.record op size id).recorded? other otherSize =
      if other = op ∧ otherSize = size then some id else recorder.recorded? other otherSize := by
  simp only [recorded?, record, Collective.update]
  by_cases hop : other = op
  · simp only [hop, true_and, if_true, Dictionary.get?_insert, Nat.compare_eq_eq]
  · simp [hop]

/-- Nothing has been recorded. -/
def isEmpty (recorder : Recorder) : Bool :=
  Collective.all.all fun op => (recorder.sizes op).isEmpty

/-- One line for each recorded operation and size. -/
def lines (recorder : Recorder) : List String :=
  Collective.all.flatMap fun op =>
    (recorder.sizes op).entries.map fun (size, id) =>
      s!"#@pgmpi alg {op.name} {size} {Choice.displayName op.choices id}"

end Recorder

end CollectiveTuner
