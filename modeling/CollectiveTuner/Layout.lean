import CollectiveTuner.Buffer

/-!
# Layouts of blocks

How a vector of elements is divided among the ranks: padded to equal blocks, dealt out in
chunks round robin, or as equal blocks one after another.
-/

namespace CollectiveTuner.Layout

/-- The elements missing for `count` to be a multiple of `parts`. -/
def padding (count parts : Nat) : Nat :=
  if count % parts = 0 then 0 else parts - count % parts

/-- The least multiple of `parts` that is at least `count`. -/
def paddedCount (count parts : Nat) : Nat :=
  count + padding count parts

/-- Replaces the elements from `count` up to `padded` by copies of the first element. Without
elements there is nothing to copy. -/
def padWithFirst (buffer : Bytes) (count padded extent : Nat) : Bytes :=
  if count = 0 then buffer
  else
    buffer.take (count * extent) ++
      (List.replicate (padded - count) (buffer.take extent)).flatten ++
      buffer.drop (padded * extent)

/-- The share of part `i` when `count` elements are dealt out to `parts` parts in chunks of
`chunk`. The incomplete last chunk goes to the part whose turn it is. -/
def roundRobinShare (parts count chunk i : Nat) : Nat :=
  let chunks := count / chunk
  let turn := chunks % parts
  chunk * (chunks / parts) + (if i < turn then chunk else if i = turn then count % chunk else 0)

/-- The shares of all parts. A chunk of zero elements counts as one element. -/
def roundRobinCounts (parts count chunk : Nat) : Except Error (List Nat) := do
  let _ ← toCount count
  (List.range parts).mapM fun i => toCount (roundRobinShare parts count (max chunk 1) i)

/-- The length of blocks of these lengths together. -/
def total (counts : List Nat) : Nat :=
  counts.foldr (· + ·) 0

/-- Where block `i` starts when blocks of these lengths follow one another. -/
def displacement (counts : List Nat) (i : Nat) : Nat :=
  total (counts.take i)

/-- Where each block starts when blocks of these lengths follow one another. -/
def displacements (counts : List Nat) : List Nat :=
  (List.range counts.length).map (displacement counts)

/-- The counts and displacements of `parts` blocks of `count` elements. -/
def uniform (parts count : Nat) : Except Error (List Nat × List Nat) := do
  let blocks ← (List.range parts).mapM fun i => do
    pure (← toCount count, ← toCount (i * count))
  pure blocks.unzip

end CollectiveTuner.Layout
