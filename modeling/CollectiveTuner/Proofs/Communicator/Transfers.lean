import CollectiveTuner.Proofs.Communicator.Movement

/-!
# What moving data means

An operation that moves data connects ranks with one another. For every connection it says which
block of the source's buffer goes to which block of the destination's buffer. When these blocks
fit, the operation does just that on all ranks, whatever the layout and whatever the schedule.
-/

namespace CollectiveTuner.Native

open Transport
open Bytes (place concat)

/-- A part of a buffer. -/
structure Block where
  /-- Where it starts. -/
  start : Nat
  /-- How many bytes it has. -/
  length : Nat
  deriving DecidableEq, Repr

namespace Block

/-- The byte at a position is in the block. -/
def Holds (block : Block) (i : Nat) : Prop :=
  block.start ≤ i ∧ i < block.start + block.length

/-- No byte is in both blocks. -/
def Apart (first second : Block) : Prop :=
  ∀ i, first.Holds i → ¬ second.Holds i

/-- The block lies in the buffer. -/
def Inside (block : Block) (buffer : Bytes) : Prop :=
  block.start + block.length ≤ buffer.length

/-- The bytes of the block. -/
def read (block : Block) (buffer : Bytes) : Bytes :=
  buffer.slice block.start block.length

/-- A block inside the buffer is read in its length. -/
theorem length_read {block : Block} {buffer : Bytes} (hinside : block.Inside buffer) :
    (block.read buffer).length = block.length :=
  Bytes.length_slice hinside

/-- Blocks are apart when one of them is empty or ends before the other begins. -/
theorem apart_iff {first second : Block} : first.Apart second ↔
    first.length = 0 ∨ second.length = 0 ∨ first.start + first.length ≤ second.start ∨
      second.start + second.length ≤ first.start := by
  constructor
  · intro hapart
    by_contra hoverlap
    exact hapart (max first.start second.start) ⟨by omega, by omega⟩ ⟨by omega, by omega⟩
  · rintro hapart i ⟨hfirst, hfirst'⟩ ⟨hsecond, hsecond'⟩
    omega

instance (block : Block) (buffer : Bytes) : Decidable (block.Inside buffer) :=
  inferInstanceAs (Decidable (block.start + block.length ≤ buffer.length))

instance (first second : Block) : Decidable (first.Apart second) :=
  decidable_of_iff' _ apart_iff

end Block

/-- An operation that moves data, with the arguments of all ranks. -/
inductive Movement (n : Nat)
  | bcast (count : Nat) (root : Fin n)
  | scatter (count : Nat) (root : Fin n)
  | scatterv (counts displs : Fin n → List Nat) (receiveCount : Fin n → Nat) (root : Fin n)
  | gather (count : Nat) (root : Fin n)
  | gatherv (sendCount : Fin n → Nat) (counts displs : Fin n → List Nat) (root : Fin n)
  | allgather (count : Nat)
  | allgatherv (sendCount : Fin n → Nat) (counts displs : Fin n → List Nat)
  | allgathervInPlace (counts displs : Fin n → List Nat)
  | alltoall (count : Nat)
  | alltoallv (sendCounts sendDispls receiveCounts receiveDispls : Fin n → List Nat)

namespace Movement

variable {n : Nat}

/-- The call of one rank. -/
def primitive (movement : Movement n) (dtype : Datatype) (me : Fin n) : Primitive :=
  match movement with
  | bcast count root => .bcast count dtype root
  | scatter count root => .scatter count dtype root
  | scatterv counts displs receiveCount root =>
    .scatterv (counts me) (displs me) (receiveCount me) dtype root
  | gather count root => .gather count dtype root
  | gatherv sendCount counts displs root =>
    .gatherv (sendCount me) (counts me) (displs me) dtype root
  | allgather count => .allgather count dtype
  | allgatherv sendCount counts displs => .allgatherv (sendCount me) (counts me) (displs me) dtype
  | allgathervInPlace counts displs => .allgathervInPlace (counts me) (displs me) dtype
  | alltoall count => .alltoall count dtype
  | alltoallv sendCounts sendDispls receiveCounts receiveDispls =>
    .alltoallv (sendCounts me) (sendDispls me) (receiveCounts me) (receiveDispls me) dtype

/-- The lists that a rank looks its blocks up in. -/
def layout (movement : Movement n) (me : Fin n) : List (List Nat) :=
  match movement with
  | scatterv counts displs _ root | gatherv _ counts displs root =>
    if me = root then [counts me, displs me] else []
  | allgatherv _ counts displs | allgathervInPlace counts displs => [counts me, displs me]
  | alltoallv sendCounts sendDispls receiveCounts receiveDispls =>
    [sendCounts me, sendDispls me, receiveCounts me, receiveDispls me]
  | _ => []

/-- The buffers that blocks are read from: the ones that are written over when an operation works
in place, and the inputs otherwise. -/
def origin (movement : Movement n) (inputs outputs : Fin n → Bytes) : Fin n → Bytes :=
  match movement with
  | bcast .. | allgathervInPlace .. => outputs
  | _ => inputs

/-- Whether a block goes from one rank to the other. -/
def connects (movement : Movement n) (source dest : Fin n) : Bool :=
  match movement with
  | bcast _ root | scatter _ root | scatterv _ _ _ root => source = root
  | gather _ root | gatherv _ _ _ root => dest = root
  | _ => true

/-- The block of the source's buffer that goes to a rank. -/
def sent (movement : Movement n) (size : Nat) (source dest : Fin n) : Block :=
  match movement with
  | bcast count _ | gather count _ | allgather count => ⟨0, count * size⟩
  | scatter count _ | alltoall count => ⟨dest * (count * size), count * size⟩
  | gatherv sendCount _ _ _ | allgatherv sendCount _ _ => ⟨0, sendCount source * size⟩
  | allgathervInPlace counts displs =>
    ⟨entry (displs source) source * size, entry (counts source) source * size⟩
  | scatterv counts displs _ _ | alltoallv counts displs _ _ =>
    ⟨entry (displs source) dest * size, entry (counts source) dest * size⟩

/-- The block of a rank's buffer that the block of a source goes to. -/
def received (movement : Movement n) (size : Nat) (dest source : Fin n) : Block :=
  match movement with
  | bcast count _ | scatter count _ => ⟨0, count * size⟩
  | scatterv _ _ receiveCount _ => ⟨0, receiveCount dest * size⟩
  | gather count _ | allgather count | alltoall count =>
    ⟨source * (count * size), count * size⟩
  | gatherv _ counts displs _ | allgatherv _ counts displs | allgathervInPlace counts displs
  | alltoallv _ _ counts displs =>
    ⟨entry (displs dest) source * size, entry (counts dest) source * size⟩

/-- The layouts cover all ranks, all blocks lie in their buffers, sender and receiver agree on how
long a block is, and no rank receives two blocks in the same place. -/
structure Fits (movement : Movement n) (size : Nat) (inputs outputs : Fin n → Bytes) : Prop where
  layout : ∀ me, ∀ entries ∈ movement.layout me, n ≤ entries.length
  sent : ∀ source dest, movement.connects source dest →
    (movement.sent size source dest).Inside (movement.origin inputs outputs source)
  received : ∀ dest source, movement.connects source dest →
    (movement.received size dest source).Inside (outputs dest)
  length : ∀ source dest, movement.connects source dest →
    (movement.sent size source dest).length = (movement.received size dest source).length
  apart : ∀ dest source other, movement.connects source dest → movement.connects other dest →
    source ≠ other →
      (movement.received size dest source).Apart (movement.received size dest other)

/-- What a rank's buffer has to hold in the end: in each receive block what the source sends to
this rank, and outside of them what it held before. -/
structure Delivered (movement : Movement n) (size : Nat) (inputs outputs : Fin n → Bytes)
    (me : Fin n) (after : Bytes) : Prop where
  length : after.length = (outputs me).length
  received : ∀ source, movement.connects source me →
    (movement.received size me source).read after =
      (movement.sent size source me).read (movement.origin inputs outputs source)
  kept : ∀ i,
    (∀ source, movement.connects source me → ¬ (movement.received size me source).Holds i) →
      after[i]? = (outputs me)[i]?

variable {movement : Movement n} {size : Nat} {inputs outputs : Fin n → Bytes} {me : Fin n}

/-- There is one way only to deliver all blocks. -/
theorem Delivered.unique {first second : Bytes}
    (hfirst : movement.Delivered size inputs outputs me first)
    (hsecond : movement.Delivered size inputs outputs me second) : first = second := by
  apply List.ext_getElem?
  intro i
  by_cases hinside : ∃ source, movement.connects source me = true ∧
      (movement.received size me source).Holds i
  · obtain ⟨source, hconnects, hstart, hstop⟩ := hinside
    have hsame := (hfirst.received source hconnects).trans (hsecond.received source hconnects).symm
    have hbyte := congrArg (fun block : Bytes =>
      block[i - (movement.received size me source).start]?) hsame
    simp only [Block.read, Bytes.getElem?_slice] at hbyte
    rwa [if_pos (by omega), if_pos (by omega), Nat.add_sub_cancel' hstart] at hbyte
  · have houtside : ∀ source, movement.connects source me →
        ¬ (movement.received size me source).Holds i :=
      fun source hconnects hholds => hinside ⟨source, hconnects, hholds⟩
    rw [hfirst.kept i houtside, hsecond.kept i houtside]

/-- The buffer of a rank after the blocks of its sources have been written, one after another. -/
def moved (movement : Movement n) (size : Nat) (inputs outputs : Fin n → Bytes) (me : Fin n) :
    Bytes :=
  place ((List.finRange n).filter fun source => movement.connects source me)
    (fun source => (movement.received size me source).start)
    (fun source => (movement.sent size source me).read (movement.origin inputs outputs source))
    (outputs me)

namespace Fits

variable (hfits : movement.Fits size inputs outputs)

include hfits

/-- Between two connected ranks, the receiver gets as many bytes as it expects. -/
theorem length_block {source : Fin n} (hconnects : movement.connects source me = true) :
    ((movement.sent size source me).read (movement.origin inputs outputs source)).length =
      (movement.received size me source).length := by
  rw [Block.length_read (hfits.sent source me hconnects), hfits.length source me hconnects]

/-- Blocks that are apart all arrive. Those that are in place already need not be written. -/
theorem delivered_place {ranks : List (Fin n)}
    (hranks : ∀ source ∈ ranks, movement.connects source me = true)
    (hplaced : ∀ source, movement.connects source me → source ∉ ranks →
      (movement.received size me source).read (outputs me) =
        (movement.sent size source me).read (movement.origin inputs outputs source)) :
    movement.Delivered size inputs outputs me
      (place ranks (fun source => (movement.received size me source).start)
        (fun source => (movement.sent size source me).read (movement.origin inputs outputs source))
        (outputs me)) := by
  have hinside : ∀ source ∈ ranks, (movement.received size me source).start +
      ((movement.sent size source me).read (movement.origin inputs outputs source)).length ≤
        (outputs me).length := by
    intro source hsource
    rw [hfits.length_block (hranks source hsource)]
    exact hfits.received me source (hranks source hsource)
  -- A byte of one block is in no other block that is written.
  have halone {source : Fin n} (hconnects : movement.connects source me = true) {j : Nat}
      (hj : j < (movement.received size me source).length) :
      ∀ other ∈ ranks, other ≠ source →
        ¬ ((movement.received size me other).start ≤ (movement.received size me source).start + j ∧
          (movement.received size me source).start + j < (movement.received size me other).start +
            ((movement.sent size other me).read
              (movement.origin inputs outputs other)).length) := by
    intro other hother hne
    rw [hfits.length_block (hranks other hother)]
    exact hfits.apart me source other hconnects (hranks other hother) (Ne.symm hne) _
      ⟨Nat.le_add_right _ _, Nat.add_lt_add_left hj _⟩
  refine ⟨Bytes.length_place hinside, fun source hconnects => ?_, fun i houtside => ?_⟩
  · have hlength := hfits.length_block hconnects
    apply List.ext_getElem?
    intro j
    rw [Block.read, Bytes.getElem?_slice]
    split
    · next hj =>
      by_cases hsource : source ∈ ranks
      · exact Bytes.getElem?_place hinside hsource (hj.trans_eq hlength.symm) (halone hconnects hj)
      · have hkept := Bytes.getElem?_place_of_outside hinside fun other hother =>
          halone hconnects hj other hother fun heq => hsource (heq ▸ hother)
        rw [hkept, ← hplaced source hconnects hsource, Block.read, Bytes.getElem?_slice, if_pos hj]
    · next hj => exact (List.getElem?_eq_none (by omega)).symm
  · refine Bytes.getElem?_place_of_outside hinside fun source hsource => ?_
    rw [hfits.length_block (hranks source hsource)]
    exact houtside source (hranks source hsource)

/-- The moved buffers hold just what the ranks deliver. -/
theorem delivered_moved (me : Fin n) :
    movement.Delivered size inputs outputs me (movement.moved size inputs outputs me) := by
  refine hfits.delivered_place (fun source hsource => (List.mem_filter.mp hsource).2)
    fun source hconnects hsource => ?_
  exact absurd (List.mem_filter.mpr ⟨List.mem_finRange source, hconnects⟩) hsource

end Fits

/-! ### Which blocks are written -/

/-- With one source there is one block. -/
theorem moved_of_source {root : Fin n}
    (hconnects : ∀ source, movement.connects source me = decide (source = root)) :
    movement.moved size inputs outputs me =
      (outputs me).overwrite (movement.received size me root).start
        ((movement.sent size root me).read (movement.origin inputs outputs root)) := by
  have hsources : ((List.finRange n).filter fun source => movement.connects source me) =
      [root] := by
    simp only [hconnects]
    rw [List.filter_eq, List.count_eq_one_of_mem (List.nodup_finRange n) (List.mem_finRange root),
      List.replicate_one]
  rw [moved, hsources]
  rfl

/-- A rank that hears from everyone gets one block of each at its place. -/
theorem moved_of_all (hconnects : ∀ source, movement.connects source me = true) :
    movement.moved size inputs outputs me =
      place (List.finRange n) (fun source => (movement.received size me source).start)
        (fun source => (movement.sent size source me).read (movement.origin inputs outputs source))
        (outputs me) := by
  rw [moved, List.filter_eq_self.mpr fun source _ => hconnects source]

/-- A rank that hears from no one keeps its buffer. -/
theorem moved_of_none (hconnects : ∀ source, movement.connects source me = false) :
    movement.moved size inputs outputs me = outputs me := by
  rw [moved, List.filter_eq_nil_iff.mpr fun source _ => by simp [hconnects source]]
  rfl

/-- Equal blocks that go one after another are written as one. -/
theorem Fits.moved_of_tiles (hfits : movement.Fits size inputs outputs) {length : Nat}
    (hconnects : ∀ source, movement.connects source me = true)
    (hreceived : ∀ source, movement.received size me source = ⟨source * length, length⟩)
    (houtput : n * length ≤ (outputs me).length) :
    movement.moved size inputs outputs me = (outputs me).overwrite 0 (concat fun source =>
      (movement.sent size source me).read (movement.origin inputs outputs source)) := by
  rw [moved_of_all hconnects]
  simp only [hreceived]
  refine (Bytes.tiles_uniform n length).place_finRange (fun source => ?_) houtput
  rw [hfits.length_block (hconnects source), hreceived]

/-- When the last of equal blocks lies in a buffer, there is room for all of them. -/
theorem mul_le_of_last {length limit : Nat}
    (hlast : ∀ rank : Fin n, rank * length + length ≤ limit) : n * length ≤ limit := by
  cases n with
  | zero => omega
  | succ n =>
    rw [Nat.succ_mul]
    exact hlast (Fin.last n)

/-! ### The operations -/

variable {arithmetic : FloatArithmetic} {dtype : Datatype}

/-- The blocks that an allgatherv in place finds where they have to be. -/
def ownBlocks (size : Nat) (counts displs : Fin n → List Nat) (outputs : Fin n → Bytes)
    (me : Fin n) : Bytes :=
  (outputs me).slice (entry (displs me) me * size) (entry (counts me) me * size)

/-- Carried out by all ranks together, the operation succeeds and delivers all blocks. -/
def Moves (arithmetic : FloatArithmetic) (movement : Movement n) (dtype : Datatype)
    (inputs outputs : Fin n → Bytes) : Prop :=
  ∃ after, Together (fun me => exchange arithmetic me (inputs me) (movement.primitive dtype me))
      outputs (fun _ => .ok ()) after ∧
    ∀ me, movement.Delivered dtype.size inputs outputs me (after me)

namespace Fits

section

variable {count : Nat} {root : Fin n}

/-- The broadcast moves the blocks of its pattern. -/
theorem moves_bcast (hfits : (bcast count root).Fits dtype.size inputs outputs) :
    Moves arithmetic (bcast count root) dtype inputs outputs := by
  have houtputs (me : Fin n) : 0 + count * dtype.size ≤ (outputs me).length :=
    hfits.received me root (decide_eq_true rfl)
  refine ⟨_, together_bcast root fun me => (Nat.zero_add _).symm.trans_le (houtputs me),
    fun me => ?_⟩
  have hdelivered := hfits.delivered_moved me
  rw [moved_of_source fun _ => rfl] at hdelivered
  exact hdelivered

/-- The scatter moves the blocks of its pattern. -/
theorem moves_scatter (hfits : (scatter count root).Fits dtype.size inputs outputs) :
    Moves arithmetic (scatter count root) dtype inputs outputs := by
  have hinput := mul_le_of_last fun dest => hfits.sent root dest (decide_eq_true rfl)
  have houtputs (me : Fin n) : 0 + count * dtype.size ≤ (outputs me).length :=
    hfits.received me root (decide_eq_true rfl)
  refine ⟨_, together_scatter root hinput
    fun me => (Nat.zero_add _).symm.trans_le (houtputs me), fun me => ?_⟩
  have hdelivered := hfits.delivered_moved me
  rw [moved_of_source fun _ => rfl] at hdelivered
  exact hdelivered

/-- The gather moves the blocks of its pattern. -/
theorem moves_gather (hfits : (gather count root).Fits dtype.size inputs outputs) :
    Moves arithmetic (gather count root) dtype inputs outputs := by
  have hinputs (me : Fin n) : 0 + count * dtype.size ≤ (inputs me).length :=
    hfits.sent me root (decide_eq_true rfl)
  have houtput := mul_le_of_last fun source => hfits.received root source (decide_eq_true rfl)
  refine ⟨_, together_gather root (fun me => (Nat.zero_add _).symm.trans_le (hinputs me)) houtput,
    fun me => ?_⟩
  have hdelivered := hfits.delivered_moved me
  by_cases hme : me = root
  · subst hme
    rw [hfits.moved_of_tiles (fun _ => decide_eq_true rfl) (fun _ => rfl) houtput] at hdelivered
    rw [if_pos rfl]
    exact hdelivered
  · have hnone (source : Fin n) : (gather count root).connects source me = false :=
      decide_eq_false hme
    rw [moved_of_none hnone] at hdelivered
    rw [if_neg hme]
    exact hdelivered

/-- The allgather moves the blocks of its pattern. -/
theorem moves_allgather (hfits : (allgather count).Fits dtype.size inputs outputs) :
    Moves arithmetic (allgather count) dtype inputs outputs := by
  have hinputs (me : Fin n) : 0 + count * dtype.size ≤ (inputs me).length :=
    hfits.sent me me rfl
  have houtputs (me : Fin n) := mul_le_of_last fun source => hfits.received me source rfl
  refine ⟨_, together_allgather (fun me => (Nat.zero_add _).symm.trans_le (hinputs me)) houtputs,
    fun me => ?_⟩
  have hdelivered := hfits.delivered_moved me
  rw [hfits.moved_of_tiles (fun _ => rfl) (fun _ => rfl) (houtputs me)] at hdelivered
  exact hdelivered

/-- The exchange between all ranks moves the blocks of its pattern. -/
theorem moves_alltoall (hfits : (alltoall count).Fits dtype.size inputs outputs) :
    Moves arithmetic (alltoall count) dtype inputs outputs := by
  have hinputs (me : Fin n) := mul_le_of_last fun dest => hfits.sent me dest rfl
  have houtputs (me : Fin n) := mul_le_of_last fun source => hfits.received me source rfl
  refine ⟨_, together_alltoall hinputs houtputs, fun me => ?_⟩
  have hdelivered := hfits.delivered_moved me
  rw [hfits.moved_of_tiles (fun _ => rfl) (fun _ => rfl) (houtputs me)] at hdelivered
  exact hdelivered

end

section

variable {counts displs : Fin n → List Nat} {root : Fin n}

/-- The scatter with a layout moves the blocks of its pattern. -/
theorem moves_scatterv {receiveCount : Fin n → Nat}
    (hfits : (scatterv counts displs receiveCount root).Fits dtype.size inputs outputs) :
    Moves arithmetic (scatterv counts displs receiveCount root) dtype inputs outputs := by
  have hcounts := hfits.layout root (counts root) (by simp [Movement.layout])
  have hdispls := hfits.layout root (displs root) (by simp [Movement.layout])
  have hmatch (me : Fin n) : entry (counts root) me = receiveCount me :=
    Nat.eq_of_mul_eq_mul_right dtype.size_pos (hfits.length root me (decide_eq_true rfl))
  have hinput (me : Fin n) : entry (displs root) me * dtype.size + receiveCount me * dtype.size ≤
      (inputs root).length := by
    rw [← hmatch]
    exact hfits.sent root me (decide_eq_true rfl)
  have houtputs (me : Fin n) : 0 + receiveCount me * dtype.size ≤ (outputs me).length :=
    hfits.received me root (decide_eq_true rfl)
  refine ⟨_, together_scatterv root hcounts hdispls hmatch hinput
    fun me => (Nat.zero_add _).symm.trans_le (houtputs me), fun me => ?_⟩
  have hdelivered := hfits.delivered_moved me
  rw [moved_of_source fun _ => rfl] at hdelivered
  rw [← hmatch]
  exact hdelivered

/-- The gather with a layout moves the blocks of its pattern. -/
theorem moves_gatherv {sendCount : Fin n → Nat}
    (hfits : (gatherv sendCount counts displs root).Fits dtype.size inputs outputs) :
    Moves arithmetic (gatherv sendCount counts displs root) dtype inputs outputs := by
  have hcounts := hfits.layout root (counts root) (by simp [Movement.layout])
  have hdispls := hfits.layout root (displs root) (by simp [Movement.layout])
  have hmatch (me : Fin n) : entry (counts root) me = sendCount me :=
    (Nat.eq_of_mul_eq_mul_right dtype.size_pos (hfits.length me root (decide_eq_true rfl))).symm
  have hinputs (me : Fin n) : 0 + sendCount me * dtype.size ≤ (inputs me).length :=
    hfits.sent me root (decide_eq_true rfl)
  have houtput (source : Fin n) : entry (displs root) source * dtype.size +
      sendCount source * dtype.size ≤ (outputs root).length := by
    rw [← hmatch]
    exact hfits.received root source (decide_eq_true rfl)
  refine ⟨_, together_gatherv root hcounts hdispls hmatch
    (fun me => (Nat.zero_add _).symm.trans_le (hinputs me)) houtput, fun me => ?_⟩
  have hdelivered := hfits.delivered_moved me
  by_cases hme : me = root
  · have hall (source : Fin n) :
        (gatherv sendCount counts displs root).connects source me = true :=
      decide_eq_true hme
    rw [moved_of_all hall] at hdelivered
    rw [if_pos hme]
    rw [hme] at hdelivered ⊢
    exact hdelivered
  · have hnone (source : Fin n) :
        (gatherv sendCount counts displs root).connects source me = false :=
      decide_eq_false hme
    rw [moved_of_none hnone] at hdelivered
    rw [if_neg hme]
    exact hdelivered

/-- The allgather with a layout moves the blocks of its pattern. -/
theorem moves_allgatherv {sendCount : Fin n → Nat}
    (hfits : (allgatherv sendCount counts displs).Fits dtype.size inputs outputs) :
    Moves arithmetic (allgatherv sendCount counts displs) dtype inputs outputs := by
  have hcounts (me : Fin n) := hfits.layout me (counts me) (by simp [Movement.layout])
  have hdispls (me : Fin n) := hfits.layout me (displs me) (by simp [Movement.layout])
  have hmatch (me source : Fin n) : entry (counts me) source = sendCount source :=
    (Nat.eq_of_mul_eq_mul_right dtype.size_pos (hfits.length source me rfl)).symm
  have hinputs (me : Fin n) : 0 + sendCount me * dtype.size ≤ (inputs me).length :=
    hfits.sent me me rfl
  have houtputs (me source : Fin n) : entry (displs me) source * dtype.size +
      sendCount source * dtype.size ≤ (outputs me).length := by
    rw [← hmatch me]
    exact hfits.received me source rfl
  refine ⟨_, together_allgatherv hcounts hdispls hmatch
    (fun me => (Nat.zero_add _).symm.trans_le (hinputs me)) houtputs, fun me => ?_⟩
  have hdelivered := hfits.delivered_moved me
  rw [moved_of_all fun _ => rfl] at hdelivered
  exact hdelivered

/-- The exchange between all ranks with layouts moves the blocks of its pattern. -/
theorem moves_alltoallv {receiveCounts receiveDispls : Fin n → List Nat}
    (hfits : (alltoallv counts displs receiveCounts receiveDispls).Fits dtype.size inputs outputs) :
    Moves arithmetic (alltoallv counts displs receiveCounts receiveDispls) dtype inputs
      outputs := by
  have hlayout (me : Fin n) : n ≤ (counts me).length ∧ n ≤ (displs me).length ∧
      n ≤ (receiveCounts me).length ∧ n ≤ (receiveDispls me).length := by
    simpa [Movement.layout] using hfits.layout me
  have hmatch (source me : Fin n) : entry (counts source) me = entry (receiveCounts me) source :=
    Nat.eq_of_mul_eq_mul_right dtype.size_pos (hfits.length source me rfl)
  refine ⟨_, together_alltoallv (fun me => (hlayout me).1) (fun me => (hlayout me).2.1)
    (fun me => (hlayout me).2.2.1) (fun me => (hlayout me).2.2.2) hmatch
    (fun source me => hfits.sent source me rfl)
    (fun me source => hfits.received me source rfl), fun me => ?_⟩
  have hdelivered := hfits.delivered_moved me
  rw [moved_of_all fun _ => rfl] at hdelivered
  exact hdelivered

/-- The allgather in place moves the blocks of its pattern. -/
theorem moves_allgathervInPlace
    (hfits : (allgathervInPlace counts displs).Fits dtype.size inputs outputs) :
    Moves arithmetic (allgathervInPlace counts displs) dtype inputs outputs := by
  have hcounts (me : Fin n) := hfits.layout me (counts me) (by simp [Movement.layout])
  have hdispls (me : Fin n) := hfits.layout me (displs me) (by simp [Movement.layout])
  have hmatch (me source : Fin n) : entry (counts me) source = entry (counts source) source :=
    (Nat.eq_of_mul_eq_mul_right dtype.size_pos (hfits.length source me rfl)).symm
  refine ⟨_, together_allgathervInPlace hcounts hdispls hmatch
    fun me source => hfits.received me source rfl, fun me => ?_⟩
  refine hfits.delivered_place (fun _ _ => rfl) fun source _ hsource => ?_
  -- The only block that is not written is the rank's own.
  obtain rfl : source = me := not_not.mp fun hne => hsource (mem_peers.mpr hne)
  rfl

/-- The blocks that an in-place allgather finds in the buffers fit the ordinary allgather. -/
theorem fits_ownBlocks
    (hfits : (allgathervInPlace counts displs).Fits dtype.size inputs outputs) :
    (allgatherv (fun me => entry (counts me) me) counts displs).Fits dtype.size
      (ownBlocks dtype.size counts displs outputs) outputs where
  layout := hfits.layout
  sent source _ _ := by
    have hown := Bytes.length_slice (hfits.received source source rfl)
    exact ((Nat.zero_add _).trans hown.symm).le
  received := hfits.received
  length := hfits.length
  apart := hfits.apart

/-- What an allgatherv of these blocks delivers, an allgatherv in place has to deliver. -/
theorem delivered_inPlace {after : Bytes}
    (hdelivered : (allgatherv (fun me => entry (counts me) me) counts displs).Delivered dtype.size
      (ownBlocks dtype.size counts displs outputs) outputs me after) :
    (allgathervInPlace counts displs).Delivered dtype.size inputs outputs me after where
  length := hdelivered.length
  received source hconnects := by
    have hown : (ownBlocks dtype.size counts displs outputs source).slice 0
        (entry (counts source) source * dtype.size) =
          ownBlocks dtype.size counts displs outputs source :=
      Bytes.slice_slice (outputs source) (Nat.zero_add _).le
    exact (hdelivered.received source hconnects).trans hown
  kept := hdelivered.kept

end

/-- All operations deliver all blocks that fit. -/
theorem moves (hfits : movement.Fits dtype.size inputs outputs) :
    Moves arithmetic movement dtype inputs outputs := by
  cases movement with
  | bcast => exact moves_bcast hfits
  | scatter => exact moves_scatter hfits
  | scatterv => exact moves_scatterv hfits
  | gather => exact moves_gather hfits
  | gatherv => exact moves_gatherv hfits
  | allgather => exact moves_allgather hfits
  | allgatherv => exact moves_allgatherv hfits
  | allgathervInPlace => exact moves_allgathervInPlace hfits
  | alltoall => exact moves_alltoall hfits
  | alltoallv => exact moves_alltoallv hfits

end Fits

/-- **Operations that move data deliver exactly the blocks of their layout.** Let all ranks call
such an operation, and let the blocks fit: they lie in their buffers, the blocks that a rank
receives are apart, and sender and receiver agree on lengths. Then no schedule runs forever, and
whatever the schedule, every rank succeeds and no message is left. In the end each receive block
holds what its source sends to this rank, and all bytes outside of these blocks are as before. An
allgatherv in place leaves what an allgatherv leaves to which every rank gives its own block. -/
theorem blocks_are_delivered (arithmetic : FloatArithmetic)
    (hfits : movement.Fits dtype.size inputs outputs) :
    let programs : Fin n → RankProgram n Reply := fun me =>
      answer arithmetic me ⟨movement.primitive dtype me, inputs me, outputs me⟩
    ∃ after : Fin n → Bytes,
      (¬ ∃ states : Nat → GroupState n Reply, states 0 = GroupState.opening programs ∧
        ∀ k, (states k).Steps (states (k + 1))) ∧
      Settles programs (fun me => ⟨.ok (), after me⟩) ∧
      (∀ state, (GroupState.opening programs).Reaches state → state.AtRest →
        state.network = Network.idle n ∧
          ∀ me, state.processes.get me = .done ⟨.ok (), after me⟩) ∧
      (∀ me, movement.Delivered dtype.size inputs outputs me (after me)) ∧
      ∀ counts displs, movement = .allgathervInPlace counts displs →
        Settles (fun me => answer arithmetic me
            ⟨.allgatherv (entry (counts me) me) (counts me) (displs me) dtype,
              ownBlocks dtype.size counts displs outputs me, outputs me⟩)
          fun me => ⟨.ok (), after me⟩ := by
  intro programs
  obtain ⟨after, htogether, hdelivered⟩ := @Fits.moves n movement inputs outputs arithmetic dtype
    hfits
  have hsettles : Settles programs fun me => ⟨.ok (), after me⟩ :=
    @Together.settles_answer n arithmetic
      (fun me => ⟨movement.primitive dtype me, inputs me, outputs me⟩) _ _ htogether
  refine ⟨after, GroupState.no_endless_steps _, hsettles, fun state hreaches hrest => ?_,
    hdelivered, fun counts displs hmovement => ?_⟩
  · rw [hsettles.eq_closing hreaches hrest]
    exact ⟨rfl, GroupState.get_opening _⟩
  · subst hmovement
    obtain ⟨after', htogether', hdelivered'⟩ := @Fits.moves_allgatherv n _ _ arithmetic dtype _ _ _
      hfits.fits_ownBlocks
    have hsame (me : Fin n) : after' me = after me :=
      (Fits.delivered_inPlace (hdelivered' me)).unique (hdelivered me)
    have hsettles' := @Together.settles_answer n arithmetic
      (fun me => ⟨.allgatherv (entry (counts me) me) (counts me) (displs me) dtype,
        ownBlocks dtype.size counts displs outputs me, outputs me⟩) _ _ htogether'
    simpa only [hsame] using hsettles'

/-- Two ranks exchange blocks of different lengths and leave gaps. One of the blocks is empty, and
lies within another one. -/
theorem blocks_are_delivered_alltoallv :
    let movement : Movement 2 :=
      .alltoallv ![[1, 2], [2, 0]] ![[2, 0], [1, 3]] ![[1, 2], [2, 0]] ![[3, 0], [1, 2]]
    let inputs : Fin 2 → Bytes := ![[10, 11, 12], [20, 21, 22]]
    let outputs : Fin 2 → Bytes := ![[0, 0, 9, 0], [7, 0, 0, 8]]
    Settles (fun me => answer Reduction.firstOperand me
        ⟨movement.primitive .uint8 me, inputs me, outputs me⟩)
      fun me => ⟨.ok (), ![[21, 22, 9, 12], [7, 10, 11, 8]] me⟩ := by
  intro movement inputs outputs
  have hfits : movement.Fits Datatype.uint8.size inputs outputs :=
    ⟨by decide, by decide, by decide, by decide, by decide⟩
  obtain ⟨after, -, hsettles, -, hdelivered, -⟩ :=
    blocks_are_delivered Reduction.firstOperand hfits
  have hafter : after = ![[21, 22, 9, 12], [7, 10, 11, 8]] := by
    ext1 me
    rw [(hdelivered me).unique (hfits.delivered_moved me)]
    fin_cases me <;> decide
  rwa [hafter] at hsettles

end Movement

end CollectiveTuner.Native
