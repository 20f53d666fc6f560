import CollectiveTuner.Dictionary
import Mathlib

/-!
# Dictionaries after a run of updates

A dictionary is determined by its answers. After a run of insertions a key has the last value that
was inserted for it, and the value from before when there was none.
-/

namespace CollectiveTuner

/-- A field that every step replaces when it has a value for it ends with the last of these
values. -/
theorem foldl_eq_getLast? {σ α β : Type} (field : σ → Option β) {step : σ → α → σ}
    {value? : α → Option β}
    (hstep : ∀ state entry, field (step state entry) = (value? entry).or (field state))
    (start : σ) (entries : List α) :
    field (entries.foldl step start) = (entries.filterMap value?).getLast?.or (field start) := by
  induction entries generalizing start with
  | nil => rfl
  | cons entry rest ih =>
    rw [List.foldl_cons, ih, hstep, List.filterMap_cons]
    cases value? entry with
    | none => rfl
    | some value =>
      rw [Option.some_or, List.getLast?_cons]
      cases (rest.filterMap value?).getLast? <;> rfl

namespace Dictionary

variable {κ α : Type} [Ord κ] [Std.TransOrd κ] [Std.LawfulEqOrd κ]

/-- Dictionaries with the same answers are equal. -/
theorem ext_get? {first second : Dictionary κ α}
    (hget : ∀ key, first.get? key = second.get? key) : first = second := by
  have hirrefl (entry : κ × α) : compare entry.1 entry.1 ≠ .lt := by
    rw [Std.LawfulEqOrd.compare_eq_iff_eq.mpr rfl]
    decide
  have hnodup (dictionary : Dictionary κ α) : dictionary.entries.Nodup := by
    refine dictionary.sorted.imp ?_
    rintro entry _ hlt rfl
    exact hirrefl entry hlt
  have hmem (entry : κ × α) : entry ∈ first.entries ↔ entry ∈ second.entries := by
    rw [← Prod.mk.eta (p := entry), mem_entries_iff, mem_entries_iff, hget]
  have hperm := (List.perm_ext_iff_of_nodup (hnodup first) (hnodup second)).mpr hmem
  have hentries : first.entries = second.entries := by
    refine hperm.eq_of_pairwise (fun entry other _ _ hlt hgt => ?_) first.sorted second.sorted
    exact absurd (Std.TransCmp.lt_trans hlt hgt) (hirrefl entry)
  obtain ⟨entries, hsorted⟩ := first
  obtain rfl : entries = second.entries := hentries
  rfl

/-- The value that an entry gives a key. -/
def valueAt (key : κ) (entry : κ × α) : Option α :=
  if compare key entry.1 = .eq then some entry.2 else none

omit [Std.TransOrd κ] in
/-- An entry gives a key a value when it consists of the two. -/
theorem valueAt_eq_some_iff {key : κ} {entry : κ × α} {value : α} :
    valueAt key entry = some value ↔ entry = (key, value) := by
  obtain ⟨other, found⟩ := entry
  simp only [valueAt, Option.ite_none_right_eq_some, Option.some.injEq,
    Std.LawfulEqOrd.compare_eq_iff_eq, Prod.mk.injEq, eq_comm (a := key)]

/-- After a run of insertions the last one for a key counts. -/
theorem get?_insertAll (dictionary : Dictionary κ α) (entries : List (κ × α)) (key : κ) :
    (dictionary.insertAll entries).get? key =
      (entries.filterMap (valueAt key)).getLast?.or (dictionary.get? key) := by
  refine foldl_eq_getLast? (fun result : Dictionary κ α => result.get? key)
    (fun result entry => ?_) dictionary entries
  rw [get?_insert, valueAt]
  split <;> rfl

/-- The entries of a dictionary, inserted in any order, give their keys the values that these have
in the dictionary. -/
theorem get?_insertAll_of_perm (dictionary : Dictionary κ α) {updates : Dictionary κ α}
    {entries : List (κ × α)} (hperm : entries.Perm updates.entries) (key : κ) :
    (dictionary.insertAll entries).get? key = (updates.get? key).or (dictionary.get? key) := by
  have hmem (value : α) :
      value ∈ entries.filterMap (valueAt key) ↔ updates.get? key = some value := by
    simp only [List.mem_filterMap, valueAt_eq_some_iff, exists_eq_right, hperm.mem_iff,
      mem_entries_iff]
  rw [get?_insertAll]
  congr 1
  cases hlast : (entries.filterMap (valueAt key)).getLast? with
  | some value => exact ((hmem value).mp (List.mem_of_getLast? hlast)).symm
  | none =>
    rw [List.getLast?_eq_none_iff] at hlast
    cases hget : updates.get? key with
    | none => rfl
    | some value =>
      have hvalue := (hmem value).mpr hget
      rw [hlast] at hvalue
      cases hvalue

/-- An entry that is inserted into the updates wins over what they were inserted into. -/
theorem insertAll_insert (dictionary updates : Dictionary κ α) (key : κ) (value : α) :
    dictionary.insertAll (updates.insert key value).entries =
      (dictionary.insertAll updates.entries).insert key value := by
  refine ext_get? fun other => ?_
  rw [get?_insertAll_of_perm dictionary (.refl _), get?_insert, get?_insert,
    get?_insertAll_of_perm dictionary (.refl _)]
  split <;> rfl

end Dictionary

end CollectiveTuner
