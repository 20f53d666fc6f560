import CollectiveTuner.Files
import CollectiveTuner.Program

/-!
# Channels between ranks

Every ordered pair of ranks is joined by a first-in first-out queue. Sending never waits,
receiving waits for a message. An endpoint may be gone: what it sent stays receivable, and
nothing reaches it any more.
-/

namespace CollectiveTuner.Transport

/-- What a rank asks of its channels. -/
inductive ChannelOp (n : Nat)
  | send (dest : Fin n) (message : Bytes)
  | receive (source : Fin n)

/-- A send answers whether the destination was there. A receive answers the message, or
nothing when the source is gone and left no message. -/
abbrev ChannelOp.Answer {n : Nat} : ChannelOp n → Type
  | send _ _ => Bool
  | receive _ => Option Bytes

/-- What one rank of a group of `n` ranks does on its channels. -/
abbrev RankProgram (n : Nat) (α : Type) := Program (ChannelOp n) ChannelOp.Answer α

/-- The messages on their way between `n` ranks. -/
structure Network (n : Nat) where
  /-- The queue from each rank (outer) to each rank (inner), oldest message first. -/
  queues : Vector (Vector (List Bytes) n) n
  /-- Which endpoints are still there. -/
  present : Vector Bool n

namespace Network

variable {n : Nat}

/-- All endpoints are there and all queues are empty. -/
def idle (n : Nat) : Network n where
  queues := Vector.replicate n (Vector.replicate n [])
  present := Vector.replicate n true

/-- The messages from `source` that `dest` has not received yet, oldest first. -/
def queue (network : Network n) (source dest : Fin n) : List Bytes :=
  network.queues[source][dest]

/-- The endpoint of `rank` is still there. -/
def isPresent (network : Network n) (rank : Fin n) : Bool :=
  network.present[rank]

/-- Replaces one queue. -/
def setQueue (network : Network n) (source dest : Fin n) (messages : List Bytes) : Network n :=
  { network with
    queues := network.queues.set source (network.queues[source].set dest messages) }

/-- Puts a message at the end of a queue. -/
def push (network : Network n) (source dest : Fin n) (message : Bytes) : Network n :=
  network.setQueue source dest (network.queue source dest ++ [message])

/-- Takes the oldest message off a queue. -/
def pop (network : Network n) (source dest : Fin n) : Network n :=
  network.setQueue source dest (network.queue source dest).tail

/-- Removes the endpoint of `rank`. -/
def close (network : Network n) (rank : Fin n) : Network n :=
  { network with present := network.present.set rank false }

/-- Networks with the same queues and the same ranks present are the same. -/
@[ext] theorem ext_queue {first second : Network n}
    (hqueue : ∀ source dest, first.queue source dest = second.queue source dest)
    (hpresent : ∀ rank, first.isPresent rank = second.isPresent rank) : first = second := by
  obtain ⟨queues, present⟩ := first
  obtain ⟨queues', present'⟩ := second
  simp only [Network.mk.injEq]
  constructor
  · apply Vector.ext
    intro i hi
    apply Vector.ext
    intro j hj
    exact hqueue ⟨i, hi⟩ ⟨j, hj⟩
  · apply Vector.ext
    intro i hi
    exact hpresent ⟨i, hi⟩

/-- All queues of an idle network are empty. -/
@[simp] theorem queue_idle (source dest : Fin n) : (idle n).queue source dest = [] := by
  simp [queue, idle]

/-- All ranks of an idle network are present. -/
@[simp] theorem isPresent_idle (rank : Fin n) : (idle n).isPresent rank = true := by
  simp [isPresent, idle]

/-- Replacing a queue leaves the other ones alone. -/
theorem queue_setQueue (network : Network n) (source dest source' dest' : Fin n)
    (messages : List Bytes) :
    (network.setQueue source dest messages).queue source' dest' =
      if source' = source ∧ dest' = dest then messages else network.queue source' dest' := by
  obtain ⟨i, hi⟩ := source
  obtain ⟨j, hj⟩ := dest
  obtain ⟨i', hi'⟩ := source'
  obtain ⟨j', hj'⟩ := dest'
  simp only [queue, setQueue, Fin.getElem_fin, Vector.getElem_set, Fin.mk.injEq]
  by_cases h : i = i'
  · subst h
    by_cases h' : j = j'
    · simp [h']
    · simp [h', Ne.symm h']
  · simp [h, Ne.symm h]

/-- A message is pushed behind those in its queue. -/
theorem queue_push (network : Network n) (source dest source' dest' : Fin n) (message : Bytes) :
    (network.push source dest message).queue source' dest' =
      network.queue source' dest' ++ if source' = source ∧ dest' = dest then [message] else [] := by
  rw [push, queue_setQueue]
  split
  · next h => rw [h.1, h.2]
  · simp

/-- A message is popped from the front of its queue. -/
theorem queue_pop (network : Network n) (source dest source' dest' : Fin n) :
    (network.pop source dest).queue source' dest' =
      if source' = source ∧ dest' = dest then (network.queue source' dest').tail
      else network.queue source' dest' := by
  rw [pop, queue_setQueue]
  split
  · next h => rw [h.1, h.2]
  · rfl

/-- Replacing a queue leaves the ranks present. -/
@[simp] theorem isPresent_setQueue (network : Network n) (source dest rank : Fin n)
    (messages : List Bytes) :
    (network.setQueue source dest messages).isPresent rank = network.isPresent rank := rfl

/-- Closing a rank takes that rank away and leaves the others. -/
theorem isPresent_close (network : Network n) (rank other : Fin n) :
    (network.close rank).isPresent other = (decide (other ≠ rank) && network.isPresent other) := by
  obtain ⟨i, hi⟩ := rank
  obtain ⟨j, hj⟩ := other
  simp only [isPresent, close, Fin.getElem_fin, Vector.getElem_set, ne_eq, Fin.mk.injEq]
  by_cases h : i = j
  · simp [h]
  · simp [h, Ne.symm h]

/-- Closing a rank leaves the queues alone. -/
@[simp] theorem queue_close (network : Network n) (rank source dest : Fin n) :
    (network.close rank).queue source dest = network.queue source dest := rfl

/-- Answers one request of rank `me`, or nothing when the rank has to wait. -/
def serve (network : Network n) (me : Fin n) : (op : ChannelOp n) → Option (op.Answer × Network n)
  | .send dest message =>
    if network.isPresent dest then some (true, network.push me dest message)
    else some (false, network)
  | .receive source =>
    match network.queue source me with
    | message :: _ => some (some message, network.pop source me)
    | [] => if network.isPresent source then none else some (none, network)

/-- Runs the process of rank `me` while every other rank is at rest. Without a value, the
process waits for a message that nobody sends. -/
def runAlone {α : Type} (me : Fin n) : RankProgram n α → Network n → Option α × Network n
  | .done value, network => (some value, network)
  | .ask op next, network =>
    match network.serve me op with
    | some (answer, network) => runAlone me (next answer) network
    | none => (none, network)

end Network

end CollectiveTuner.Transport
