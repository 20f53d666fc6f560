import CollectiveTuner.Communicator.Call

/-!
# Endpoints and the channels between them

How a group of ranks is wired. Every ordered pair of ranks has a channel, also a rank with itself.
An endpoint has the sending ends of its channels by destination and the receiving ends by source,
and both are laid out while the channels are made one after another. An endpoint that is dropped
takes its ends of all its channels with it.
-/

namespace CollectiveTuner.Transport

/-- A channel from one rank to another, first in first out and without a bound. -/
structure Channel where
  /-- The messages on their way, oldest first. -/
  messages : List Bytes
  /-- The sending end is still there. -/
  hasSender : Bool
  /-- The receiving end is still there. -/
  hasReceiver : Bool
  deriving DecidableEq, Repr

/-- A channel that has just been made. -/
def Channel.fresh : Channel :=
  { messages := [], hasSender := true, hasReceiver := true }

/-- The channels of a group, by the order in which they were made. -/
abbrev Channels := Nat → Channel

/-- Changes one channel. -/
def Channels.alter (channels : Channels) (number : Nat) (change : Channel → Channel) : Channels :=
  fun other => if other = number then change (channels other) else channels other

/-- What a rank has of its group. -/
structure Endpoint where
  /-- The number of the rank. -/
  rank : Nat
  /-- How many ranks the group has. -/
  size : Nat
  /-- The channel to each rank. -/
  outbox : List Nat
  /-- The channel from each rank. -/
  inbox : List Nat
  deriving DecidableEq, Repr

/-! ### Making a group -/

/-- A group whose channels are being made. -/
structure Workbench where
  /-- How many channels have been made. -/
  made : Nat
  /-- The sending ends that each rank has so far. -/
  outboxes : List (List Nat)
  /-- The receiving ends that each rank has so far, at the place of the source. -/
  inboxes : List (List (Option Nat))
  deriving DecidableEq, Repr

namespace Workbench

/-- Nothing is made yet. -/
def empty (size : Nat) : Workbench where
  made := 0
  outboxes := List.replicate size []
  inboxes := List.replicate size (List.replicate size none)

/-- Makes a channel. Its sending end goes behind those that the source has, and its receiving end
to the place of the source with the destination. -/
def connect (bench : Workbench) (source dest : Nat) : Workbench where
  made := bench.made + 1
  outboxes := bench.outboxes.modify source fun outbox => outbox ++ [bench.made]
  inboxes := bench.inboxes.modify dest fun inbox => inbox.set source (some bench.made)

/-- Makes the channels of one source, one destination after another. -/
def connectAll (bench : Workbench) (size source : Nat) : Workbench :=
  (List.range size).foldl (fun bench dest => bench.connect source dest) bench

/-- Makes the channels of all ranks, one source after another. -/
def wire (size : Nat) : Workbench :=
  (List.range size).foldl (fun bench source => bench.connectAll size source) (empty size)

end Workbench

/-- The endpoints of a group, by rank. -/
def endpoints (size : Nat) : List Endpoint :=
  let bench := Workbench.wire size
  (bench.outboxes.zip bench.inboxes).zipIdx.map fun ((outbox, inbox), rank) =>
    { rank, size, outbox, inbox := inbox.filterMap id }

/-! ### Using an endpoint -/

namespace Endpoint

/-- Sends a message to a rank. It fails when the destination has dropped its end. -/
def send (endpoint : Endpoint) (dest : Nat) (message : Bytes) (channels : Channels) :
    Reply × Channels :=
  match endpoint.outbox[dest]? with
  | none => ({ status := throw (.invalidRank dest endpoint.size), output := [] }, channels)
  | some number =>
    if (channels number).hasReceiver then
      ({ status := pure (), output := [] },
        channels.alter number fun channel =>
          { channel with messages := channel.messages ++ [message] })
    else
      ({ status := throw (.transport s!"send to rank {dest}" (some "channel closed")),
         output := [] }, channels)

/-- Receives the next message from a rank into a buffer that has to be as long. There is no reply
while the source may still send and the channel is empty. -/
def receive (endpoint : Endpoint) (source : Nat) (buffer : Bytes) (channels : Channels) :
    Option (Reply × Channels) :=
  match endpoint.inbox[source]? with
  | none =>
    some ({ status := throw (.invalidRank source endpoint.size), output := buffer }, channels)
  | some number =>
    match (channels number).messages with
    | message :: rest =>
      let left := channels.alter number fun channel => { channel with messages := rest }
      if message.length = buffer.length then
        some ({ status := pure (), output := message }, left)
      else
        some ({ status := throw (.bufferSizeMismatch buffer.length message.length),
                output := buffer }, left)
    | [] =>
      if (channels number).hasSender then none
      else
        some ({ status := throw (.collectiveFailed "recv" source "peer endpoint dropped"),
                output := buffer }, channels)

/-- Drops an endpoint with its ends of all its channels. -/
def drop (endpoint : Endpoint) (channels : Channels) : Channels :=
  let unsent := endpoint.outbox.foldl (fun channels number =>
    channels.alter number fun channel => { channel with hasSender := false }) channels
  endpoint.inbox.foldl (fun channels number =>
    channels.alter number fun channel => { channel with hasReceiver := false }) unsent

end Endpoint

end CollectiveTuner.Transport
