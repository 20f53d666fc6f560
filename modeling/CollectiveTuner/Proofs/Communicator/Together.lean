import CollectiveTuner.Proofs.Communicator.Exchanges

/-!
# What all ranks do together

`Together` says how an exchange ends on every rank when all ranks carry it out, whatever the
schedule. It follows from what each rank does on its own once the messages match: a rank sends
to the ranks that receive from it, and each takes what was sent to it.
-/

namespace CollectiveTuner.Native

open Transport

variable {n : Nat}

/-- Carried out by all ranks together, the exchange ends on each rank with this result and leaves
its buffer as `after`. No message is left under way. -/
def Together (exchange : Fin n → Exchange n Unit) (before : Fin n → Bytes)
    (result : Fin n → Except Error Unit) (after : Fin n → Bytes) : Prop :=
  Settles (fun me => (exchange me).run.run (before me)) fun me => (result me, after me)

/-- What all ranks do together is what the calls reply. -/
theorem Together.settles_answer {arithmetic : FloatArithmetic} {calls : Fin n → Call}
    {result : Fin n → Except Error Unit} {after : Fin n → Bytes}
    (htogether : Together
      (fun me => exchange arithmetic me (calls me).input (calls me).primitive)
      (fun me => (calls me).output) result after) :
    Settles (fun me => answer arithmetic me (calls me)) fun me => ⟨result me, after me⟩ :=
  Settles.bind htogether (settles_done _)

/-- One exchange after another. -/
theorem Together.bind {first second : Fin n → Exchange n Unit} {before middle after : Fin n → Bytes}
    {result : Fin n → Except Error Unit}
    (hfirst : Together first before (fun _ => .ok ()) middle)
    (hsecond : Together second middle result after) :
    Together (fun me => first me >>= fun _ => second me) before result after :=
  Settles.bind hfirst hsecond

/-- Exchanges that use no channel end at once. -/
theorem together_of_quiet {exchange : Fin n → Exchange n Unit} {before after : Fin n → Bytes}
    {result : Fin n → Except Error Unit}
    (hperforms : ∀ me, Performs (exchange me) (before me) [] (result me) (after me)) :
    Together exchange before result after := by
  have hend : (fun me => (exchange me).run.run (before me)) =
      fun me => .done (result me, after me) :=
    funext fun me => (hperforms me).eq_of_nil
  rw [Together, hend]
  exact settles_done _

/-- The channels carry the exchange out when it is accepted. Otherwise every rank gets the same
error and nothing is written. -/
structure Serves (exchange : Fin n → Exchange n Unit) (accepted : Prop)
    (before after : Fin n → Bytes) : Prop where
  together : accepted → Together exchange before (fun _ => .ok ()) after
  rejected : ¬ accepted → ∃ error, Together exchange before (fun _ => .error error) before

/-- An exchange that never fails. -/
theorem Together.serves {exchange : Fin n → Exchange n Unit} {before after : Fin n → Bytes}
    (htogether : Together exchange before (fun _ => .ok ()) after) :
    Serves exchange True before after :=
  ⟨fun _ => htogether, fun h => absurd trivial h⟩

/-- The message that one rank sends to another is the only one between them. -/
theorem along_map {ranks : List (Fin n)} (hnodup : ranks.Nodup) (rank : Fin n)
    (message : Fin n → Bytes) :
    along rank (ranks.map fun other => (other, message other)) =
      if rank ∈ ranks then [message rank] else [] := by
  induction ranks with
  | nil => rfl
  | cons first rest ih =>
    obtain ⟨hfirst, hrest⟩ := List.nodup_cons.mp hnodup
    rw [List.map_cons, along_cons, ih hrest]
    by_cases heq : first = rank
    · subst heq
      simp [hfirst]
    · simp [heq, Ne.symm heq]

/-- Every rank first sends a message to each of its destinations and then takes one from each of
its sources. Whoever sends to a rank is a source of it. -/
theorem together_of_matching {exchange : Fin n → Exchange n Unit} {before after : Fin n → Bytes}
    {result : Fin n → Except Error Unit} (dests sources : Fin n → List (Fin n))
    (message : Fin n → Fin n → Bytes)
    (hdests : ∀ me, (dests me).Nodup) (hsources : ∀ me, (sources me).Nodup)
    (hmatch : ∀ source dest, dest ∈ dests source ↔ source ∈ sources dest)
    (hperforms : ∀ me, Performs (exchange me) (before me)
      (posting ((dests me).map fun dest => (dest, message me dest)) ++
        taking ((sources me).map fun source => (source, message source me)))
      (result me) (after me)) :
    Together exchange before result after := by
  refine settles_of_matching _ _ hperforms fun source dest => ?_
  rw [along_map (hdests source), along_map (hsources dest)]
  simp only [hmatch]

/-! ### Who sends to whom -/

/-- The peers of a rank are all others. -/
theorem mem_peers {me rank : Fin n} : rank ∈ peers me ↔ rank ≠ me := by
  simp [peers]

/-- No peer comes twice. -/
theorem nodup_peers (me : Fin n) : (peers me).Nodup :=
  (List.nodup_finRange n).filter _

/-- All ranks send to all others. -/
theorem together_all_to_all {exchange : Fin n → Exchange n Unit} {before after : Fin n → Bytes}
    {result : Fin n → Except Error Unit} (message : Fin n → Fin n → Bytes)
    (hperforms : ∀ me, Performs (exchange me) (before me)
      (posting ((peers me).map fun dest => (dest, message me dest)) ++
        taking ((peers me).map fun source => (source, message source me)))
      (result me) (after me)) :
    Together exchange before result after :=
  together_of_matching peers peers message nodup_peers nodup_peers
    (fun _ _ => by rw [mem_peers, mem_peers, ne_comm]) hperforms

/-- One rank sends to all others. -/
theorem together_from_root {exchange : Fin n → Exchange n Unit} {before after : Fin n → Bytes}
    {result : Fin n → Except Error Unit} (root : Fin n) (message : Fin n → Bytes)
    (hroot : Performs (exchange root) (before root)
      (posting ((peers root).map fun dest => (dest, message dest))) (result root) (after root))
    (hothers : ∀ me, me ≠ root →
      Performs (exchange me) (before me) (taking [(root, message me)]) (result me) (after me)) :
    Together exchange before result after := by
  refine together_of_matching (fun me => if me = root then peers root else [])
    (fun me => if me = root then [] else [root]) (fun _ => message)
    (fun me => ?_) (fun me => ?_) (fun source dest => ?_) fun me => ?_
  · split
    · exact nodup_peers root
    · exact List.nodup_nil
  · split
    · exact List.nodup_nil
    · exact List.nodup_singleton root
  · by_cases hsource : source = root <;> by_cases hdest : dest = root <;>
      simp [hsource, hdest, mem_peers]
  · by_cases hme : me = root
    · subst hme
      simpa [taking] using hroot
    · simpa [posting, hme] using hothers me hme

/-- All ranks send to one of them. -/
theorem together_to_root {exchange : Fin n → Exchange n Unit} {before after : Fin n → Bytes}
    {result : Fin n → Except Error Unit} (root : Fin n) (message : Fin n → Bytes)
    (hroot : Performs (exchange root) (before root)
      (taking ((peers root).map fun source => (source, message source))) (result root) (after root))
    (hothers : ∀ me, me ≠ root →
      Performs (exchange me) (before me) (posting [(root, message me)]) (result me) (after me)) :
    Together exchange before result after := by
  refine together_of_matching (fun me => if me = root then [] else [root])
    (fun me => if me = root then peers root else []) (fun source _ => message source)
    (fun me => ?_) (fun me => ?_) (fun source dest => ?_) fun me => ?_
  · split
    · exact List.nodup_nil
    · exact List.nodup_singleton root
  · split
    · exact nodup_peers root
    · exact List.nodup_nil
  · by_cases hsource : source = root <;> by_cases hdest : dest = root <;>
      simp [hsource, hdest, mem_peers]
  · by_cases hme : me = root
    · subst hme
      simpa [posting] using hroot
    · simpa [taking, hme] using hothers me hme

/-- No rank above comes twice. -/
theorem nodup_ranksAbove (me : Fin n) : (ranksAbove me).Nodup :=
  (List.nodup_finRange n).filter _

/-- Every rank sends to the ranks above it. -/
theorem together_upward {exchange : Fin n → Exchange n Unit} {before after : Fin n → Bytes}
    {result : Fin n → Except Error Unit} (message : Fin n → Bytes)
    (hperforms : ∀ me, Performs (exchange me) (before me)
      (posting ((ranksAbove me).map fun dest => (dest, message me)) ++
        taking (((List.finRange n).filter fun source => source < me).map fun source =>
          (source, message source)))
      (result me) (after me)) :
    Together exchange before result after :=
  together_of_matching ranksAbove (fun me => (List.finRange n).filter fun source => source < me)
    (fun source _ => message source) nodup_ranksAbove
    (fun _ => (List.nodup_finRange n).filter _) (fun _ _ => by simp [ranksAbove]) hperforms

end CollectiveTuner.Native
