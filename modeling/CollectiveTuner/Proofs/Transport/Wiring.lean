import CollectiveTuner.Transport.Network
import CollectiveTuner.Transport.Wiring
import Mathlib

/-!
# A wired group carries one queue for every pair

The loops that make the channels give the one from a rank to another the same number at both of its
ends. So a group of endpoints is a network with a queue for every ordered pair of ranks: what one
rank does on its endpoint changes the queues and the presence of ranks as the network says.
-/

namespace CollectiveTuner.Transport

variable {n : Nat}

/-! ### Which channels are made -/

/-- Changing one entry of a table by rank. -/
theorem modify_map_range {α : Type} {size rank : Nat} {before after : Nat → α} {change : α → α}
    (hrank : after rank = change (before rank)) (hother : ∀ i, i ≠ rank → after i = before i) :
    ((List.range size).map before).modify rank change = (List.range size).map after := by
  refine List.ext_getElem (by simp) fun i _ _ => ?_
  rw [List.getElem_modify, List.getElem_map, List.getElem_map, List.getElem_range]
  split
  · next heq =>
    rw [← heq, hrank]
  · next hne => rw [hother i (Ne.symm hne)]

namespace Workbench

/-- The workbench when the channels of the first sources have been made, and those of the next
source to the first destinations. -/
def progress (size sources dests : Nat) : Workbench where
  made := sources * size + dests
  outboxes := (List.range size).map fun source =>
    (List.range (if source < sources then size else if source = sources then dests else 0)).map
      (source * size + ·)
  inboxes := (List.range size).map fun dest => (List.range size).map fun source =>
    if source < sources ∨ source = sources ∧ dest < dests then some (source * size + dest) else none

/-- An empty workbench is the one on which no channel has been made. -/
theorem empty_eq_progress (size : Nat) : empty size = progress size 0 0 := by
  simp [empty, progress, List.map_const']

/-- When a source has all its channels, the next one is started with. -/
theorem progress_full (size sources : Nat) :
    progress size sources size = progress size (sources + 1) 0 := by
  simp only [progress, Workbench.mk.injEq]
  refine ⟨by rw [Nat.succ_mul, Nat.add_zero], List.map_congr_left fun source _ => ?_,
    List.map_congr_left fun dest hdest => List.map_congr_left fun source _ => ?_⟩
  · congr 2
    split_ifs <;> omega
  · have hdest := List.mem_range.mp hdest
    split_ifs <;> first | rfl | omega

/-- A source gets its channels one destination after another. -/
theorem connect_progress {size source dest : Nat} :
    (progress size source dest).connect source dest = progress size source (dest + 1) := by
  simp only [progress, connect, Workbench.mk.injEq]
  refine ⟨by omega, modify_map_range ?_ fun other hother => ?_,
    modify_map_range ?_ fun other hother => ?_⟩
  · simp [List.range_succ]
  · simp [hother]
  · rw [List.set_eq_modify]
    refine (modify_map_range ?_ fun other hother => ?_).symm
    · simp
    · simp [hother]
  · refine List.map_congr_left fun source _ => ?_
    split_ifs <;> first | rfl | omega

/-- Connecting a source to all destinations moves on to the next source. -/
theorem connectAll_progress (size source : Nat) :
    (progress size source 0).connectAll size source = progress size (source + 1) 0 := by
  have hloop (dests : Nat) : (List.range dests).foldl (fun bench dest => bench.connect source dest)
      (progress size source 0) = progress size source dests := by
    induction dests with
    | zero => rfl
    | succ dests ih =>
      rw [List.range_succ, List.foldl_append, ih]
      exact connect_progress
  rw [connectAll, hloop, progress_full]

/-- The loops make a channel for every ordered pair of ranks. -/
theorem wire_eq_progress (size : Nat) : wire size = progress size size 0 := by
  have hloop (sources : Nat) : (List.range sources).foldl
      (fun bench source => bench.connectAll size source) (empty size) =
        progress size sources 0 := by
    induction sources with
    | zero => exact empty_eq_progress size
    | succ sources ih =>
      rw [List.range_succ, List.foldl_append, ih]
      exact connectAll_progress size sources
  exact hloop size

end Workbench

/-- The number of the channel from one rank to another. -/
def channelNumber (source dest : Fin n) : Nat :=
  source * n + dest

/-- Each pair of ranks has a channel of its own. -/
theorem channelNumber_inj {source dest source' dest' : Fin n} :
    channelNumber source dest = channelNumber source' dest' ↔ source = source' ∧ dest = dest' := by
  constructor
  · intro heq
    have hdest := congrArg (· % n) heq
    simp only [channelNumber, Nat.mul_add_mod_self_right, Nat.mod_eq_of_lt (Fin.isLt _)] at hdest
    obtain rfl := Fin.ext hdest
    have hsource := Nat.eq_of_mul_eq_mul_right dest.pos (Nat.add_right_cancel heq)
    exact ⟨Fin.ext hsource, rfl⟩
  · rintro ⟨rfl, rfl⟩
    rfl

/-- The endpoint of a rank. -/
def endpoint (n : Nat) (me : Fin n) : Endpoint where
  rank := me
  size := n
  outbox := (List.finRange n).map fun dest => channelNumber me dest
  inbox := (List.finRange n).map fun source => channelNumber source me

/-- **The two ends of every channel meet.** Whatever the size of the group, the channel that a rank
sends to another one on is the channel that the other one receives from it on, and no other pair of
ranks has it. -/
theorem endpoints_eq (n : Nat) : endpoints n = (List.finRange n).map (endpoint n) := by
  have htable (number : Nat → Nat) :
      (List.range n).map number = (List.finRange n).map fun rank : Fin n => number rank := by
    rw [← List.map_coe_finRange_eq_range, List.map_map]
    rfl
  have hinbox (dest : Nat) : ((List.range n).map fun source =>
      if source < n ∨ source = n ∧ dest < 0 then some (source * n + dest) else none).filterMap id =
        (List.range n).map fun source => source * n + dest := by
    rw [List.filterMap_map, ← List.filterMap_eq_map]
    refine List.filterMap_congr fun source hsource => ?_
    simp [List.mem_range.mp hsource]
  rw [endpoints, Workbench.wire_eq_progress, Workbench.progress]
  refine List.ext_getElem (by simp) fun rank _ hrank => ?_
  have hrank : rank < n := by simpa using hrank
  simp only [List.getElem_map, List.getElem_zipIdx, List.getElem_zip, List.getElem_range, hinbox,
    Nat.zero_add, hrank, if_true, endpoint, channelNumber, List.getElem_finRange, Fin.cast_mk]
  rw [htable fun dest => rank * n + dest, htable fun source => source * n + rank]

/-- The channel that a rank sends to another one on. -/
theorem outbox_endpoint (me dest : Fin n) :
    (endpoint n me).outbox[dest.val]? = some (channelNumber me dest) := by
  simp [endpoint]

/-- An endpoint has no way out to a rank outside the group. -/
theorem outbox_endpoint_of_le {me : Fin n} {rank : Nat} (hrank : n ≤ rank) :
    (endpoint n me).outbox[rank]? = none := by
  simpa [endpoint] using hrank

/-- The channel that a rank receives from another one on. -/
theorem inbox_endpoint (me source : Fin n) :
    (endpoint n me).inbox[source.val]? = some (channelNumber source me) := by
  simp [endpoint]

/-- An endpoint has no way in from a rank outside the group. -/
theorem inbox_endpoint_of_le {me : Fin n} {rank : Nat} (hrank : n ≤ rank) :
    (endpoint n me).inbox[rank]? = none := by
  simpa [endpoint] using hrank

/-! ### What the channels carry -/

/-- A change that is made to some channels, once or many times. -/
theorem foldl_alter {change : Channel → Channel} (hchange : ∀ channel,
    change (change channel) = change channel) (numbers : List Nat) (channels : Channels)
    (number : Nat) :
    numbers.foldl (fun channels number => channels.alter number change) channels number =
      if number ∈ numbers then change (channels number) else channels number := by
  induction numbers generalizing channels with
  | nil => rfl
  | cons first rest ih =>
    rw [List.foldl_cons, ih, Channels.alter]
    by_cases hfirst : number = first
    · simp [hfirst, hchange]
    · simp [hfirst]

/-- Every channel has the messages of a queue of the network, and each of its ends is there as long
as its rank is. -/
def Carries (channels : Channels) (network : Network n) : Prop :=
  ∀ source dest : Fin n, channels (channelNumber source dest) =
    ⟨network.queue source dest, network.isPresent source, network.isPresent dest⟩

/-- Fresh channels carry what an idle network does. -/
theorem carries_idle : Carries (fun _ => .fresh) (Network.idle n) := by
  intro source dest
  rw [Network.queue_idle, Network.isPresent_idle, Network.isPresent_idle]
  rfl

namespace Carries

variable {channels : Channels} {network : Network n} (hcarries : Carries channels network)

include hcarries

/-- Other messages in one channel are other messages in one queue. -/
theorem alter {source dest : Fin n} {messages : List Bytes} {change : Channel → Channel}
    (hchange : ∀ queue hasSender hasReceiver, queue = network.queue source dest →
      change ⟨queue, hasSender, hasReceiver⟩ = ⟨messages, hasSender, hasReceiver⟩) :
    Carries (channels.alter (channelNumber source dest) change)
      (network.setQueue source dest messages) := by
  intro source' dest'
  rw [Channels.alter, Network.queue_setQueue, Network.isPresent_setQueue,
    Network.isPresent_setQueue]
  by_cases hsame : source' = source ∧ dest' = dest
  · rw [if_pos (channelNumber_inj.mpr hsame), if_pos hsame, hcarries]
    exact hchange _ _ _ (by rw [hsame.1, hsame.2])
  · rw [if_neg (mt channelNumber_inj.mp hsame), if_neg hsame, hcarries]

/-- Dropping the endpoint of a rank removes the rank. -/
theorem drop (me : Fin n) : Carries ((endpoint n me).drop channels) (network.close me) := by
  intro source dest
  have hsender : channelNumber source dest ∈ (endpoint n me).outbox ↔ source = me := by
    simp [endpoint, channelNumber_inj, eq_comm]
  have hreceiver : channelNumber source dest ∈ (endpoint n me).inbox ↔ dest = me := by
    simp [endpoint, channelNumber_inj, eq_comm]
  simp only [Endpoint.drop]
  rw [foldl_alter (by intro; rfl), foldl_alter (by intro; rfl), hcarries, Network.queue_close,
    Network.isPresent_close, Network.isPresent_close]
  simp only [hsender, hreceiver]
  split_ifs with hdest hsource hsource <;> simp [hdest, hsource]

end Carries

end CollectiveTuner.Transport
