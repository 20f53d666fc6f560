import CollectiveTuner.Proofs.Communicator.Movement
import CollectiveTuner.Proofs.Transport.Wiring

/-!
# Point-to-point delivery

The ranks of a group send to one another, receive from one another and drop their endpoints, one
move after another in any order. The history of moves alone says which messages have been sent from
one rank to another and how many of them have been taken, and from that what the next move gives.
-/

namespace CollectiveTuner.Native

open Transport
open Reduction (firstOperand)

/-- What a rank can do with its endpoint. -/
inductive Move
  | send (dest : Nat) (message : Bytes)
  | receive (source : Nat) (buffer : Bytes)
  | drop
  deriving DecidableEq, Repr

/-- The moves made so far and who made them, latest first. -/
abbrev Moves (n : Nat) := List (Fin n × Move)

variable {n : Nat}

/-- What a move comes back with and what it leaves under way. It does not come back when it has to
wait for a message. -/
def play (arithmetic : FloatArithmetic) (network : Network n) (me : Fin n) :
    Move → Option Reply × Network n
  | .send dest message => network.runAlone me (answer arithmetic me ⟨.send dest, message, []⟩)
  | .receive source buffer =>
    network.runAlone me (answer arithmetic me ⟨.receive source, [], buffer⟩)
  | .drop => (some ⟨.ok (), []⟩, network.close me)

/-- What a move on an endpoint comes back with, and the channels that it leaves. -/
def Move.use (endpoint : Endpoint) (channels : Channels) : Move → Option (Reply × Channels)
  | .send dest message => some (endpoint.send dest message channels)
  | .receive source buffer => endpoint.receive source buffer channels
  | .drop => some (⟨.ok (), []⟩, endpoint.drop channels)

/-- What a move comes back with in a wired group, and the channels that it leaves. -/
def playWired (n : Nat) (channels : Channels) (me : Fin n) (move : Move) :
    Option (Reply × Channels) :=
  (endpoints n)[me.val]?.bind fun endpoint => move.use endpoint channels

/-- What a send comes back with, depending on whether the destination was there. -/
def posted (dest : Nat) : Bool → Reply
  | true => ⟨.ok (), []⟩
  | false => ⟨.error (.transport s!"send to rank {dest}" (some "channel closed")), []⟩

/-- What a receive comes back with, depending on the message that it took. -/
def received (source : Nat) (buffer : Bytes) : Option Bytes → Reply
  | some message =>
    if message.length = buffer.length then ⟨.ok (), message⟩
    else ⟨.error (.bufferSizeMismatch buffer.length message.length), buffer⟩
  | none => ⟨.error (.collectiveFailed "recv" source "peer endpoint dropped"), buffer⟩

namespace Moves

/-- What some moves leave under way in a group that was idle before. -/
def network (arithmetic : FloatArithmetic) : Moves n → Network n
  | [] => Network.idle n
  | (me, move) :: before => (play arithmetic (network arithmetic before) me move).2

/-- What some moves leave in the channels of a wired group that have just been made. -/
def channels : Moves n → Channels
  | [] => fun _ => .fresh
  | (me, move) :: before =>
    ((playWired n (channels before) me move).map Prod.snd).getD (channels before)

/-- A rank has dropped its endpoint. -/
def Dropped (moves : Moves n) (rank : Fin n) : Prop :=
  (rank, Move.drop) ∈ moves

instance (moves : Moves n) (rank : Fin n) : Decidable (moves.Dropped rank) :=
  inferInstanceAs (Decidable ((rank, Move.drop) ∈ moves))

/-- The messages that one rank has sent to another, oldest first. A message that is sent after the
destination has dropped its endpoint does not count. -/
def sent (source dest : Fin n) : Moves n → List Bytes
  | (me, .send rank message) :: before =>
    if me = source ∧ rank = dest ∧ ¬ Dropped before dest then
      sent source dest before ++ [message]
    else sent source dest before
  | _ :: before => sent source dest before
  | [] => []

/-- How many of the messages from one rank to another have been taken. A receive takes a message
when there is one left. -/
def taken (source dest : Fin n) : Moves n → Nat
  | (me, .receive rank _) :: before =>
    if me = dest ∧ rank = source ∧ taken source dest before < (sent source dest before).length then
      taken source dest before + 1
    else taken source dest before
  | _ :: before => taken source dest before
  | [] => 0

/-- The message that the next receive takes. -/
def next? (moves : Moves n) (source dest : Fin n) : Option Bytes :=
  (moves.sent source dest)[moves.taken source dest]?

/-- A receive has to wait when the source is still there and has no message for the rank. -/
def Waits (moves : Moves n) (me : Fin n) : Move → Prop
  | .receive rank _ =>
    ∃ source : Fin n, source = rank ∧ ¬ moves.Dropped source ∧ moves.next? source me = none
  | _ => False

instance (moves : Moves n) (me : Fin n) : (move : Move) → Decidable (moves.Waits me move)
  | .receive rank _ => inferInstanceAs (Decidable
      (∃ source : Fin n, source = rank ∧ ¬ moves.Dropped source ∧ moves.next? source me = none))
  | .send .. => inferInstanceAs (Decidable False)
  | .drop => inferInstanceAs (Decidable False)

/-- A rank can make a move while it has its endpoint and need not wait. -/
def CanMove (moves : Moves n) (me : Fin n) (move : Move) : Prop :=
  ¬ moves.Dropped me ∧ ¬ moves.Waits me move

instance (moves : Moves n) (me : Fin n) (move : Move) : Decidable (moves.CanMove me move) :=
  inferInstanceAs (Decidable (_ ∧ _))

/-- All moves could be made when they were made. -/
def Possible : Moves n → Prop
  | [] => True
  | (me, move) :: before => CanMove before me move ∧ Possible before

instance decidablePossible : (moves : Moves n) → Decidable moves.Possible
  | [] => inferInstanceAs (Decidable True)
  | (_, _) :: before =>
    have := decidablePossible before
    inferInstanceAs (Decidable (_ ∧ _))

/-- A move that concerns the messages from one rank to another: a send of the one, a receive of the
other, or a drop of either endpoint. -/
def Concerns (source dest me : Fin n) : Move → Prop
  | .send rank _ => me = source ∧ rank = dest
  | .receive rank _ => me = dest ∧ rank = source
  | .drop => me = source ∨ me = dest

instance (source dest me : Fin n) : (move : Move) → Decidable (Concerns source dest me move)
  | .send rank _ => inferInstanceAs (Decidable (me = source ∧ rank = dest))
  | .receive rank _ => inferInstanceAs (Decidable (me = dest ∧ rank = source))
  | .drop => inferInstanceAs (Decidable (me = source ∨ me = dest))

/-- The moves that concern the messages from one rank to another. -/
def between (source dest : Fin n) (moves : Moves n) : Moves n :=
  moves.filter fun (me, move) => Concerns source dest me move

/-- What the next move comes back with. -/
def reply (moves : Moves n) (me : Fin n) : Move → Reply
  | .send dest _ =>
    if hdest : dest < n then posted dest (decide (¬ moves.Dropped ⟨dest, hdest⟩))
    else ⟨.error (.invalidRank dest n), []⟩
  | .receive source buffer =>
    if hsource : source < n then received source buffer (moves.next? ⟨source, hsource⟩ me)
    else ⟨.error (.invalidRank source n), buffer⟩
  | .drop => ⟨.ok (), []⟩

end Moves

section Answers

variable (arithmetic : FloatArithmetic) (me : Fin n)

/-- A send to a rank is one request. -/
theorem answer_send (dest : Fin n) (message : Bytes) :
    answer arithmetic me ⟨.send dest, message, []⟩ =
      .ask (.send dest message) fun delivered => .done (posted dest delivered) := by
  simp only [answer, exchange, send, validRank_eq_ok]
  refine congrArg (Program.ask _) (funext fun delivered => ?_)
  cases delivered <;> rfl

/-- A receive from a rank is one request. Its buffer is looked at after the message is taken. -/
theorem answer_receive (source : Fin n) (buffer : Bytes) :
    answer arithmetic me ⟨.receive source, [], buffer⟩ =
      .ask (.receive source) fun message? => .done (received source buffer message?) := by
  have hcheck : Bytes.checkBlock (List.length buffer) 0 (List.length buffer) = .ok () := by
    rw [Bytes.checkBlock, Nat.zero_add, if_pos le_rfl]
    rfl
  have hrun : (exchange arithmetic me [] (.receive source)).run.run buffer =
      (show Exchange n Unit from do
        liftM (Bytes.checkBlock (List.length buffer) 0 (List.length buffer))
        store 0 (List.length buffer) (← accept source "recv")).run.run buffer := by
    simp only [exchange, receive, validRank_eq_ok]
    rfl
  rw [answer, hrun, hcheck]
  refine congrArg (Program.ask _) (funext fun message? => ?_)
  cases message? with
  | none => rfl
  | some message =>
    change Program.bind
      ((store 0 (List.length buffer) message : Exchange n Unit).run.run buffer) _ = _
    rw [store, received]
    by_cases hlength : List.length message = List.length buffer
    · rw [if_neg (not_not.mpr hlength), if_pos hlength]
      change Program.done (Reply.mk (.ok ()) (buffer.overwrite 0 message)) = _
      rw [Bytes.overwrite_zero_of_length hlength]
    · rw [if_pos hlength, if_neg hlength]
      rfl

/-- A send to a rank outside the group is refused without using a channel. -/
theorem answer_send_of_le {dest : Nat} (hdest : n ≤ dest) (message : Bytes) :
    answer arithmetic me ⟨.send dest, message, []⟩ =
      .done ⟨.error (.invalidRank dest n), []⟩ := by
  simp only [answer, exchange, send, validRank_eq_error hdest]
  rfl

/-- A receive from a rank outside the group is refused without using a channel. -/
theorem answer_receive_of_le {source : Nat} (hsource : n ≤ source) (buffer : Bytes) :
    answer arithmetic me ⟨.receive source, [], buffer⟩ =
      .done ⟨.error (.invalidRank source n), buffer⟩ := by
  simp only [answer, exchange, receive, validRank_eq_error hsource]
  rfl

variable (network : Network n)

/-- A send appends to the queue of a rank that is present, and fails without effect if it has
gone. -/
theorem play_send (dest : Fin n) (message : Bytes) :
    play arithmetic network me (.send dest message) =
      (some (posted dest (network.isPresent dest)),
        if network.isPresent dest then network.push me dest message else network) := by
  rw [play, answer_send, Network.runAlone, Network.serve]
  cases network.isPresent dest <;> rfl

/-- A receive takes the first message of a queue that is not empty. -/
theorem play_receive_cons {source : Fin n} {message : Bytes} {rest : List Bytes}
    (hqueue : network.queue source me = message :: rest) (buffer : Bytes) :
    play arithmetic network me (.receive source buffer) =
      (some (received source buffer (some message)), network.setQueue source me rest) := by
  rw [play, answer_receive, Network.runAlone, Network.serve, hqueue, Network.pop, hqueue]
  rfl

/-- A receive fails when the queue is empty and the sender has gone. -/
theorem play_receive_nil {source : Fin n} (hqueue : network.queue source me = [])
    (hgone : network.isPresent source = false) (buffer : Bytes) :
    play arithmetic network me (.receive source buffer) =
      (some (received source buffer none), network) := by
  rw [play, answer_receive, Network.runAlone, Network.serve, hqueue, hgone]
  rfl

/-- A receive waits for a rank that is still there. -/
theorem play_receive_waiting {source : Fin n} (hqueue : network.queue source me = [])
    (hpresent : network.isPresent source = true) (buffer : Bytes) :
    play arithmetic network me (.receive source buffer) = (none, network) := by
  rw [play, answer_receive, Network.runAlone, Network.serve, hqueue, hpresent]
  rfl

/-- A send to a rank outside the group changes nothing in the network. -/
theorem play_send_of_le {dest : Nat} (hdest : n ≤ dest) (message : Bytes) :
    play arithmetic network me (.send dest message) =
      (some ⟨.error (.invalidRank dest n), []⟩, network) := by
  rw [play, answer_send_of_le arithmetic me hdest]
  rfl

/-- A receive from a rank outside the group changes nothing in the network. -/
theorem play_receive_of_le {source : Nat} (hsource : n ≤ source) (buffer : Bytes) :
    play arithmetic network me (.receive source buffer) =
      (some ⟨.error (.invalidRank source n), buffer⟩, network) := by
  rw [play, answer_receive_of_le arithmetic me hsource]
  rfl

end Answers

/-! ### What the history says -/

namespace Moves

variable {moves : Moves n} {me rank source dest : Fin n} {move : Move}

/-- A rank has dropped out when it did so in the last move or before. -/
theorem dropped_cons :
    Dropped ((me, move) :: moves) rank ↔ (rank = me ∧ move = .drop) ∨ moves.Dropped rank := by
  simp [Dropped, eq_comm]

/-- No more messages are taken than were sent. -/
theorem taken_le (source dest : Fin n) (moves : Moves n) :
    moves.taken source dest ≤ (moves.sent source dest).length := by
  induction moves with
  | nil => exact Nat.zero_le _
  | cons latest before ih =>
    obtain ⟨me, move⟩ := latest
    cases move with
    | send rank message =>
      simp only [taken, sent]
      split
      · rw [List.length_append]
        exact Nat.le_succ_of_le ih
      · exact ih
    | receive rank buffer =>
      simp only [taken, sent]
      split <;> omega
    | drop => exact ih

/-- What is under way is what has been sent but not taken, and a rank is there until it drops its
endpoint. -/
structure Tracks (moves : Moves n) (network : Network n) : Prop where
  queue : ∀ source dest,
    network.queue source dest = (moves.sent source dest).drop (moves.taken source dest)
  present : ∀ rank, network.isPresent rank = decide (¬ moves.Dropped rank)

/-- At the beginning no message is under way. -/
theorem tracks_nil : Tracks [] (Network.idle n) where
  queue source dest := Network.queue_idle source dest
  present rank := Network.isPresent_idle rank

namespace Tracks

variable {network : Network n} (htracks : Tracks moves network)

include htracks

/-- The message at the front of a queue is the next one that the history has not taken. -/
theorem head?_queue (source dest : Fin n) :
    (network.queue source dest).head? = moves.next? source dest := by
  rw [htracks.queue, List.head?_drop, next?]

/-- Only a drop changes who is there. -/
theorem present_cons (hmove : move ≠ .drop) (rank : Fin n) :
    network.isPresent rank = decide (¬ Dropped ((me, move) :: moves) rank) := by
  rw [htracks.present]
  simp [dropped_cons, hmove]

/-- A message goes behind those under way, unless its destination is gone. -/
theorem send (me dest : Fin n) (message : Bytes) :
    Tracks ((me, .send dest message) :: moves)
      (if network.isPresent dest then network.push me dest message else network) := by
  refine ⟨fun source' dest' => ?_, fun rank => ?_⟩
  · have htaken := moves.taken_le source' dest'
    have hpresent := htracks.present dest
    simp only [sent, taken]
    by_cases hsame : me = source' ∧ dest = dest'
    · obtain ⟨rfl, rfl⟩ := hsame
      by_cases hdropped : moves.Dropped dest
      · simp [hdropped, hpresent, htracks.queue]
      · simp [hdropped, hpresent, htracks.queue, Network.queue_push,
          List.drop_append_of_le_length htaken]
    · have hskip : ¬ (me = source' ∧ dest.val = dest'.val ∧ ¬ moves.Dropped dest') :=
        fun ⟨hme, hdest, _⟩ => hsame ⟨hme, Fin.ext hdest⟩
      have hother : ¬ (source' = me ∧ dest' = dest) :=
        fun ⟨hme, hdest⟩ => hsame ⟨hme.symm, hdest.symm⟩
      rw [if_neg hskip]
      split
      · rw [Network.queue_push, if_neg hother, List.append_nil, htracks.queue]
      · exact htracks.queue source' dest'
  · have hkept : (if network.isPresent dest then network.push me dest message
        else network).isPresent rank = network.isPresent rank := by
      split <;> rfl
    rw [hkept]
    exact htracks.present_cons (by simp) rank

/-- A receive takes the first message under way, whatever becomes of it. -/
theorem receive (me source : Fin n) (buffer : Bytes) {message : Bytes} {rest : List Bytes}
    (hqueue : network.queue source me = message :: rest) :
    Tracks ((me, .receive source buffer) :: moves) (network.setQueue source me rest) := by
  refine ⟨fun source' dest' => ?_, fun rank => ?_⟩
  · simp only [sent, taken]
    rw [Network.queue_setQueue]
    by_cases hsame : source' = source ∧ dest' = me
    · obtain ⟨rfl, rfl⟩ := hsame
      have hleft := (htracks.queue source' dest').symm.trans hqueue
      have hmore : moves.taken source' dest' < (moves.sent source' dest').length := by
        by_contra hnone
        rw [List.drop_eq_nil_of_le (Nat.le_of_not_lt hnone)] at hleft
        cases hleft
      rw [if_pos ⟨rfl, rfl⟩, if_pos ⟨rfl, rfl, hmore⟩, ← List.tail_drop, hleft]
      rfl
    · have hother : ¬ (me = dest' ∧ source.val = source'.val ∧
          moves.taken source' dest' < (moves.sent source' dest').length) :=
        fun ⟨hme, hsource, _⟩ => hsame ⟨(Fin.ext hsource).symm, hme.symm⟩
      rw [if_neg hsame, if_neg hother]
      exact htracks.queue source' dest'
  · rw [Network.isPresent_setQueue]
    exact htracks.present_cons (by simp) rank

/-- A move that counts for nothing leaves everything as it is. -/
theorem of_same (hmove : move ≠ .drop)
    (hsent : ∀ source dest, sent source dest ((me, move) :: moves) = moves.sent source dest)
    (htaken : ∀ source dest, taken source dest ((me, move) :: moves) = moves.taken source dest) :
    Tracks ((me, move) :: moves) network where
  queue source dest := by rw [hsent, htaken, htracks.queue]
  present rank := htracks.present_cons hmove rank

/-- A receive that finds no message counts for nothing. -/
theorem receive_nothing (me source : Fin n) (buffer : Bytes)
    (hqueue : network.queue source me = []) :
    Tracks ((me, .receive source buffer) :: moves) network := by
  have hnone : (moves.sent source me).length ≤ moves.taken source me := by
    rw [← List.drop_eq_nil_iff, ← htracks.queue, hqueue]
  refine htracks.of_same (by simp) (fun _ _ => rfl) fun source' dest' => if_neg ?_
  rintro ⟨rfl, hsource, hmore⟩
  obtain rfl := Fin.ext hsource
  omega

/-- A move with a rank that there is not counts for nothing. -/
theorem send_of_le (me : Fin n) {rank : Nat} (hrank : n ≤ rank) (message : Bytes) :
    Tracks ((me, .send rank message) :: moves) network := by
  refine htracks.of_same (by simp) (fun source' dest' => if_neg ?_) fun _ _ => rfl
  rintro ⟨-, rfl, -⟩
  exact absurd dest'.isLt (Nat.not_lt_of_le hrank)

/-- A receive from a rank outside the group leaves the history tracked. -/
theorem receive_of_le (me : Fin n) {rank : Nat} (hrank : n ≤ rank) (buffer : Bytes) :
    Tracks ((me, .receive rank buffer) :: moves) network := by
  refine htracks.of_same (by simp) (fun _ _ => rfl) fun source' dest' => if_neg ?_
  rintro ⟨-, rfl, -⟩
  exact absurd source'.isLt (Nat.not_lt_of_le hrank)

/-- A possible move comes back with what the history says, and what it leaves is tracked by the
longer history. -/
theorem play (arithmetic : FloatArithmetic) (hmove : moves.CanMove me move) :
    ∃ after, Native.play arithmetic network me move = (some (moves.reply me move), after) ∧
      Tracks ((me, move) :: moves) after := by
  cases move with
  | send rank message =>
    by_cases hrank : rank < n
    · obtain ⟨dest, rfl⟩ : ∃ dest : Fin n, rank = dest := ⟨⟨rank, hrank⟩, rfl⟩
      refine ⟨_, ?_, htracks.send me dest message⟩
      rw [play_send, reply, dif_pos hrank, htracks.present]
    · have hrank' := Nat.le_of_not_lt hrank
      refine ⟨network, ?_, htracks.send_of_le me hrank' message⟩
      rw [play_send_of_le arithmetic me network hrank', reply, dif_neg hrank]
  | receive rank buffer =>
    by_cases hrank : rank < n
    · obtain ⟨source, rfl⟩ : ∃ source : Fin n, rank = source := ⟨⟨rank, hrank⟩, rfl⟩
      have hhead := htracks.head?_queue source me
      cases hqueue : network.queue source me with
      | nil =>
        rw [hqueue] at hhead
        have hgone : network.isPresent source = false := by
          have hdropped : moves.Dropped source :=
            not_not.mp fun hthere => hmove.2 ⟨source, rfl, hthere, hhead.symm⟩
          rw [htracks.present, decide_eq_false (not_not.mpr hdropped)]
        refine ⟨network, ?_, htracks.receive_nothing me source buffer hqueue⟩
        rw [play_receive_nil arithmetic me network hqueue hgone, reply, dif_pos hrank, ← hhead]
        rfl
      | cons message rest =>
        rw [hqueue] at hhead
        refine ⟨_, ?_, htracks.receive me source buffer hqueue⟩
        rw [play_receive_cons arithmetic me network hqueue, reply, dif_pos hrank, ← hhead]
        rfl
    · have hrank' := Nat.le_of_not_lt hrank
      refine ⟨network, ?_, htracks.receive_of_le me hrank' buffer⟩
      rw [play_receive_of_le arithmetic me network hrank', reply, dif_neg hrank]
  | drop =>
    refine ⟨network.close me, rfl, fun source dest => htracks.queue source dest, fun rank => ?_⟩
    rw [Network.isPresent_close, htracks.present]
    simp [dropped_cons]

end Tracks

/-- Moves on other pairs of ranks do not matter. -/
theorem between_spec (source dest : Fin n) (moves : Moves n) :
    (moves.between source dest).sent source dest = moves.sent source dest ∧
      (moves.between source dest).taken source dest = moves.taken source dest ∧
      ((moves.between source dest).Dropped dest ↔ moves.Dropped dest) := by
  induction moves with
  | nil => exact ⟨rfl, rfl, Iff.rfl⟩
  | cons latest before ih =>
    obtain ⟨me, move⟩ := latest
    obtain ⟨hsent, htaken, hdropped⟩ := ih
    by_cases hkeep : Concerns source dest me move
    · have hbetween : between source dest ((me, move) :: before) =
          (me, move) :: between source dest before :=
        List.filter_cons_of_pos (decide_eq_true hkeep)
      cases move <;>
        simp only [hbetween, sent, taken, dropped_cons, hsent, htaken, hdropped, and_self]
    · have hbetween : between source dest ((me, move) :: before) = between source dest before :=
        List.filter_cons_of_neg (by simpa using hkeep)
      rw [hbetween, hsent, htaken, hdropped, dropped_cons]
      cases move with
      | send rank message =>
        refine ⟨(if_neg fun ⟨hme, hrank, _⟩ => hkeep ⟨hme, hrank⟩).symm, rfl, by simp⟩
      | receive rank buffer =>
        refine ⟨rfl, (if_neg fun ⟨hme, hrank, _⟩ => hkeep ⟨hme, hrank⟩).symm, by simp⟩
      | drop =>
        have hother : dest ≠ me := fun hdest => hkeep (.inr hdest.symm)
        exact ⟨rfl, rfl, by simp [hother]⟩

/-- What is under way after possible moves is what their history says. -/
theorem tracks_network (arithmetic : FloatArithmetic) (hpossible : moves.Possible) :
    Tracks moves (moves.network arithmetic) := by
  induction moves with
  | nil => exact tracks_nil
  | cons latest before ih =>
    obtain ⟨hmove, hbefore⟩ := hpossible
    obtain ⟨after, hplay, htracks⟩ := (ih hbefore).play arithmetic hmove
    rw [network, hplay]
    exact htracks

end Moves

/-! ### The wired group -/

section Wired

variable {channels : Channels} {network after : Network n} {arithmetic : FloatArithmetic}
  {me : Fin n} {move : Move} {reply : Reply}

/-- Moving in the wired group is using the channels of one's own endpoint. -/
theorem playWired_eq_use (channels : Channels) (me : Fin n) (move : Move) :
    playWired n channels me move = move.use (endpoint n me) channels := by
  simp [playWired, endpoints_eq]

/-- A wired group comes back with what the network comes back with, and goes on carrying it. -/
theorem exists_playWired (hcarries : Carries channels network)
    (hplay : play arithmetic network me move = (some reply, after)) :
    ∃ left, playWired n channels me move = some (reply, left) ∧ Carries left after := by
  rw [playWired_eq_use]
  cases move with
  | send rank message =>
    by_cases hrank : rank < n
    · obtain ⟨dest, rfl⟩ : ∃ dest : Fin n, rank = dest := ⟨⟨rank, hrank⟩, rfl⟩
      rw [play_send] at hplay
      cases hplay
      cases hpresent : network.isPresent dest with
      | true =>
        simp only [Move.use, Endpoint.send, outbox_endpoint, hcarries me dest, hpresent, if_true]
        refine ⟨_, rfl, hcarries.alter fun queue _ _ hqueue => ?_⟩
        rw [hqueue]
      | false =>
        simp only [Move.use, Endpoint.send, outbox_endpoint, hcarries me dest, hpresent]
        exact ⟨_, rfl, hcarries⟩
    · rw [play_send_of_le _ _ _ (Nat.le_of_not_lt hrank)] at hplay
      cases hplay
      simp only [Move.use, Endpoint.send, outbox_endpoint_of_le (Nat.le_of_not_lt hrank)]
      exact ⟨_, rfl, hcarries⟩
  | receive rank buffer =>
    by_cases hrank : rank < n
    · obtain ⟨source, rfl⟩ : ∃ source : Fin n, rank = source := ⟨⟨rank, hrank⟩, rfl⟩
      simp only [Move.use, Endpoint.receive, inbox_endpoint, hcarries source me]
      cases hqueue : network.queue source me with
      | nil =>
        cases hpresent : network.isPresent source with
        | true =>
          rw [play_receive_waiting _ _ _ hqueue hpresent] at hplay
          cases hplay
        | false =>
          rw [play_receive_nil _ _ _ hqueue hpresent] at hplay
          cases hplay
          exact ⟨_, rfl, hcarries⟩
      | cons message rest =>
        rw [play_receive_cons _ _ _ hqueue] at hplay
        cases hplay
        have hleft := @Carries.alter n channels network hcarries source me rest
          (fun channel => { channel with messages := rest }) fun _ _ _ _ => rfl
        dsimp only
        rw [received]
        split <;> exact ⟨_, rfl, hleft⟩
    · rw [play_receive_of_le _ _ _ (Nat.le_of_not_lt hrank)] at hplay
      cases hplay
      simp only [Move.use, Endpoint.receive, inbox_endpoint_of_le (Nat.le_of_not_lt hrank)]
      exact ⟨_, rfl, hcarries⟩
  | drop =>
    cases hplay
    exact ⟨_, rfl, hcarries.drop me⟩

end Wired

namespace Moves

variable {moves : Moves n}

/-- The channels of a wired group carry what is under way. -/
theorem carries_channels (arithmetic : FloatArithmetic) (hpossible : moves.Possible) :
    Carries moves.channels (moves.network arithmetic) := by
  induction moves with
  | nil => exact carries_idle
  | cons latest before ih =>
    obtain ⟨hmove, hbefore⟩ := hpossible
    obtain ⟨after, hplay, -⟩ := (tracks_network arithmetic hbefore).play arithmetic hmove
    obtain ⟨left, hwired, hcarries⟩ := exists_playWired (ih hbefore) hplay
    rw [channels, network, hwired, hplay]
    exact hcarries

/-- A possible move comes back with what the history says, on the network as well as in a wired
group. -/
theorem play_eq_reply (arithmetic : FloatArithmetic) (hpossible : moves.Possible) {me : Fin n}
    {move : Move} (hmove : moves.CanMove me move) :
    (play arithmetic (moves.network arithmetic) me move).1 = some (moves.reply me move) ∧
      (playWired n moves.channels me move).map Prod.fst = some (moves.reply me move) := by
  obtain ⟨after, hplay, -⟩ := (tracks_network arithmetic hpossible).play arithmetic hmove
  obtain ⟨left, hwired, -⟩ := exists_playWired (carries_channels arithmetic hpossible) hplay
  rw [hplay, hwired]
  exact ⟨rfl, rfl⟩

/-- A receive is answered with the next message of the history. -/
theorem reply_receive (moves : Moves n) (me source : Fin n) (buffer : Bytes) :
    moves.reply me (.receive source buffer) = received source buffer (moves.next? source me) :=
  dif_pos source.isLt

/-- A send is answered by whether the receiver has dropped out. -/
theorem reply_send (moves : Moves n) (me dest : Fin n) (message : Bytes) :
    moves.reply me (.send dest message) = posted dest (decide (¬ moves.Dropped dest)) :=
  dif_pos dest.isLt

/-- **Point-to-point delivery is exact.** Let the ranks of a group send, receive and drop their
endpoints in any order, such that nobody receives from a rank that is still there and has no message
for it. Then for every ordered pair of ranks, also of a rank with itself, the queue between them
holds what has been sent but not yet taken, in the order in which it was sent, and so does the
channel that is wired for the pair.

Every further move comes back, in a network of queues as well as in a wired group of endpoints. A
receive takes the next of the messages that the source has sent to this rank, also after the source
has dropped its endpoint. It succeeds with exactly these bytes if they are as many as the buffer
has; otherwise it reports both lengths and leaves the buffer as it was, and the message is gone all
the same. It reports that the peer is gone exactly when the source has dropped its endpoint and none
of its messages is left. What it comes back with depends on the moves between the two ranks alone. A
send fails exactly when the destination has dropped its endpoint. A rank out of range is reported as
such and changes nothing. -/
theorem deliveries_are_exact (arithmetic : FloatArithmetic) (hpossible : moves.Possible) :
    (∀ source dest : Fin n,
      let left := (moves.sent source dest).drop (moves.taken source dest)
      (moves.network arithmetic).queue source dest = left ∧
        moves.channels (channelNumber source dest) =
          ⟨left, decide (¬ moves.Dropped source), decide (¬ moves.Dropped dest)⟩) ∧
    (∀ me move, moves.CanMove me move →
      (play arithmetic (moves.network arithmetic) me move).1 = some (moves.reply me move) ∧
        (playWired n moves.channels me move).map Prod.fst = some (moves.reply me move)) ∧
    (∀ (source dest : Fin n) (buffer : Bytes), moves.CanMove dest (.receive source buffer) →
      let reply := moves.reply dest (.receive source buffer)
      (∀ message, (moves.sent source dest)[moves.taken source dest]? = some message →
        taken source dest ((dest, .receive source buffer) :: moves) =
            moves.taken source dest + 1 ∧
          reply = if message.length = buffer.length then ⟨.ok (), message⟩
            else ⟨.error (.bufferSizeMismatch buffer.length message.length), buffer⟩) ∧
      (reply = ⟨.error (.collectiveFailed "recv" source "peer endpoint dropped"), buffer⟩ ↔
        moves.Dropped source ∧ (moves.network arithmetic).queue source dest = []) ∧
      (between source dest moves).reply dest (.receive source buffer) = reply) ∧
    (∀ (source dest : Fin n) (message : Bytes),
      let reply := moves.reply source (.send dest message)
      (reply.status = .ok () ↔ ¬ moves.Dropped dest) ∧
      (reply.status = .error (.transport s!"send to rank {dest.val}" (some "channel closed")) ↔
        moves.Dropped dest)) ∧
    ∀ (me : Fin n) (rank : Nat), n ≤ rank → ∀ (message buffer : Bytes),
      moves.reply me (.send rank message) = ⟨.error (.invalidRank rank n), []⟩ ∧
      moves.reply me (.receive rank buffer) = ⟨.error (.invalidRank rank n), buffer⟩ ∧
      network arithmetic ((me, .send rank message) :: moves) = moves.network arithmetic ∧
      network arithmetic ((me, .receive rank buffer) :: moves) = moves.network arithmetic ∧
      channels ((me, .send rank message) :: moves) = moves.channels ∧
      channels ((me, .receive rank buffer) :: moves) = moves.channels := by
  have htracks := tracks_network arithmetic hpossible
  have hcarries := carries_channels arithmetic hpossible
  refine ⟨fun source dest => ⟨htracks.queue source dest, ?_⟩,
    fun me move hmove => play_eq_reply arithmetic hpossible hmove,
    fun source dest buffer hmove => ?_, fun source dest message => ?_,
    fun me rank hrank message buffer => ?_⟩
  · rw [hcarries, htracks.queue, htracks.present, htracks.present]
  · have hhead := htracks.head?_queue source dest
    refine ⟨fun message hmessage => ⟨?_, ?_⟩, ?_, ?_⟩
    · obtain ⟨hmore, -⟩ := List.getElem?_eq_some_iff.mp hmessage
      exact if_pos ⟨rfl, rfl, hmore⟩
    · rw [reply_receive, next?, hmessage]
      rfl
    · rw [reply_receive]
      cases hnext : moves.next? source dest with
      | none =>
        have hdropped : moves.Dropped source :=
          not_not.mp fun hthere => hmove.2 ⟨source, rfl, hthere, hnext⟩
        have hqueue := List.head?_eq_none_iff.mp (hhead.trans hnext)
        exact ⟨fun _ => ⟨hdropped, hqueue⟩, fun _ => rfl⟩
      | some message =>
        rw [hnext] at hhead
        refine ⟨fun hfailed => ?_, fun ⟨_, hqueue⟩ => ?_⟩
        · rw [received] at hfailed
          split at hfailed <;> cases hfailed
        · rw [hqueue] at hhead
          cases hhead
    · obtain ⟨hsent, htaken, -⟩ := between_spec source dest moves
      rw [reply_receive, reply_receive, next?, next?, hsent, htaken]
  · rw [reply_send]
    by_cases hdropped : moves.Dropped dest <;> simp [posted, hdropped]
  · refine ⟨dif_neg (Nat.not_lt_of_le hrank), dif_neg (Nat.not_lt_of_le hrank), ?_, ?_, ?_, ?_⟩
    · rw [network, play_send_of_le arithmetic me _ hrank]
    · rw [network, play_receive_of_le arithmetic me _ hrank]
    · rw [channels, playWired_eq_use, Move.use, Endpoint.send, outbox_endpoint_of_le hrank]
      rfl
    · rw [channels, playWired_eq_use, Move.use, Endpoint.receive, inbox_endpoint_of_le hrank]
      rfl

/-- Two ranks, of which the first one sends two messages to the other, one to itself, and drops its
endpoint. The other one has taken the first message into a buffer that is too short. Its next
receive succeeds with the second message. -/
theorem deliveries_are_exact_after_drop :
    let moves : Moves 2 := [(1, .receive 0 [0]), (0, .drop), (0, .receive 0 [0]), (0, .send 1 [3]),
      (1, .send 0 [9]), (0, .send 0 [7]), (0, .send 1 [1, 2])]
    (play firstOperand (moves.network firstOperand) 1 (.receive 0 [0])).1 = some ⟨.ok (), [3]⟩ := by
  intro moves
  have hpossible : moves.Possible := by decide
  have hmove : moves.CanMove 1 (.receive 0 [0]) := by decide
  exact ((deliveries_are_exact firstOperand hpossible).2.1 1 (.receive 0 [0]) hmove).1

end Moves

end CollectiveTuner.Native
