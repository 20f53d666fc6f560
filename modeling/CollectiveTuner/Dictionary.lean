/-!
# Dictionaries sorted by key

A dictionary is a list of entries with strictly ascending keys, so two dictionaries with the
same answers to `get?` are equal. `insert` replaces the value of a key that is there already.
-/

namespace CollectiveTuner

/-- A finite map from keys to values, listed by ascending key. -/
structure Dictionary (κ α : Type) [Ord κ] where
  /-- The keys with their values. -/
  entries : List (κ × α)
  /-- The keys ascend strictly. -/
  sorted : entries.Pairwise fun a b => compare a.1 b.1 = .lt

namespace Dictionary

variable {κ α : Type} [Ord κ]

/-- Puts an entry into a list that is sorted by key. -/
def insertEntry (key : κ) (value : α) : List (κ × α) → List (κ × α)
  | [] => [(key, value)]
  | (k, v) :: rest =>
    match compare key k with
    | .lt => (key, value) :: (k, v) :: rest
    | .eq => (key, value) :: rest
    | .gt => (k, v) :: insertEntry key value rest

/-- What is among the entries after an insertion is the new entry or was among them before. -/
theorem mem_insertEntry {key : κ} {value : α} {entries : List (κ × α)} {entry : κ × α}
    (hmem : entry ∈ insertEntry key value entries) : entry = (key, value) ∨ entry ∈ entries := by
  induction entries with
  | nil => simpa [insertEntry] using hmem
  | cons first rest ih =>
    simp only [insertEntry] at hmem
    split at hmem
    · simpa using hmem
    · rcases List.mem_cons.mp hmem with rfl | hrest
      · exact .inl rfl
      · exact .inr (List.mem_cons_of_mem _ hrest)
    · rcases List.mem_cons.mp hmem with rfl | hrest
      · exact .inr List.mem_cons_self
      · exact (ih hrest).imp_right (List.mem_cons_of_mem _)

/-- Inserting an entry keeps the keys in order. -/
theorem sorted_insertEntry [Std.TransOrd κ] [Std.LawfulEqOrd κ] (key : κ) (value : α)
    {entries : List (κ × α)} (hsorted : entries.Pairwise fun a b => compare a.1 b.1 = .lt) :
    (insertEntry key value entries).Pairwise fun a b => compare a.1 b.1 = .lt := by
  induction entries with
  | nil => simp [insertEntry]
  | cons first rest ih =>
    obtain ⟨hfirst, hrest⟩ := List.pairwise_cons.mp hsorted
    simp only [insertEntry]
    split
    · next hlt =>
      refine List.pairwise_cons.mpr ⟨fun entry hentry => ?_, hsorted⟩
      rcases List.mem_cons.mp hentry with rfl | hentry
      · exact hlt
      · exact Std.TransCmp.lt_trans hlt (hfirst entry hentry)
    · next heq =>
      have hkey : key = first.1 := Std.LawfulEqOrd.eq_of_compare heq
      exact List.pairwise_cons.mpr ⟨hkey ▸ hfirst, hrest⟩
    · next hgt =>
      refine List.pairwise_cons.mpr ⟨fun entry hentry => ?_, ih hrest⟩
      rcases mem_insertEntry hentry with rfl | hentry
      · exact Std.OrientedCmp.lt_of_gt hgt
      · exact hfirst entry hentry

/-- The dictionary without entries. -/
def empty : Dictionary κ α := ⟨[], .nil⟩

/-- Gives a key a value, which replaces an earlier one. -/
def insert [Std.TransOrd κ] [Std.LawfulEqOrd κ] (dictionary : Dictionary κ α) (key : κ)
    (value : α) : Dictionary κ α :=
  ⟨insertEntry key value dictionary.entries, sorted_insertEntry key value dictionary.sorted⟩

/-- The value of a key. -/
def get? (dictionary : Dictionary κ α) (key : κ) : Option α :=
  (dictionary.entries.find? fun entry => compare key entry.1 == .eq).map Prod.snd

/-- Inserts the entries of a list from left to right. -/
def insertAll [Std.TransOrd κ] [Std.LawfulEqOrd κ] (dictionary : Dictionary κ α)
    (entries : List (κ × α)) : Dictionary κ α :=
  entries.foldl (fun result entry => result.insert entry.1 entry.2) dictionary

/-- There is no entry. -/
def isEmpty (dictionary : Dictionary κ α) : Bool :=
  dictionary.entries.isEmpty

/-- Nothing is found in an empty dictionary. -/
@[simp] theorem get?_empty (key : κ) : (empty : Dictionary κ α).get? key = none := rfl

/-- An inserted value is found under its key, and every other key finds what it found before. -/
theorem get?_insert [Std.TransOrd κ] [Std.LawfulEqOrd κ] (dictionary : Dictionary κ α)
    (key other : κ) (value : α) :
    (dictionary.insert key value).get? other =
      if compare other key = .eq then some value else dictionary.get? other := by
  obtain ⟨entries, hsorted⟩ := dictionary
  simp only [get?, insert]
  induction entries with
  | nil =>
    simp only [insertEntry, List.find?_cons, List.find?_nil]
    cases compare other key <;> simp
  | cons first rest ih =>
    have hrest := ih (List.pairwise_cons.mp hsorted).2
    simp only [insertEntry]
    split
    · simp only [List.find?_cons]
      cases compare other key <;> simp
    · next heq =>
      have hkey : key = first.1 := Std.LawfulEqOrd.eq_of_compare heq
      simp only [List.find?_cons, ← hkey]
      cases compare other key <;> simp
    · next hgt =>
      simp only [List.find?_cons]
      cases hfirst : compare other first.1 with
      | eq =>
        have hother : other = first.1 := Std.LawfulEqOrd.eq_of_compare hfirst
        have hne : compare other key ≠ .eq := by
          rw [hother, Std.OrientedCmp.lt_of_gt hgt]
          simp
        simp [hne]
      | lt => simpa using hrest
      | gt => simpa using hrest

/-- The entries are the keys with their values. -/
theorem mem_entries_iff [Std.TransOrd κ] [Std.LawfulEqOrd κ] {dictionary : Dictionary κ α}
    {key : κ} {value : α} :
    (key, value) ∈ dictionary.entries ↔ dictionary.get? key = some value := by
  obtain ⟨entries, hsorted⟩ := dictionary
  simp only [get?]
  induction entries with
  | nil => simp
  | cons first rest ih =>
    obtain ⟨hfirst, hrest⟩ := List.pairwise_cons.mp hsorted
    rw [List.mem_cons, ih hrest, List.find?_cons]
    cases hcompare : compare key first.1 with
    | eq =>
      have hkey : key = first.1 := Std.LawfulEqOrd.eq_of_compare hcompare
      have hnone : (rest.find? fun entry => compare key entry.1 == .eq) = none := by
        refine List.find?_eq_none.mpr fun entry hentry => ?_
        rw [hkey, hfirst entry hentry]
        decide
      rw [hnone]
      simp [hkey, Prod.ext_iff, eq_comm]
    | lt | gt =>
      have hne : (key, value) ≠ first := by
        rintro rfl
        simp [Std.ReflCmp.compare_self] at hcompare
      simp [hne]

end Dictionary

end CollectiveTuner
