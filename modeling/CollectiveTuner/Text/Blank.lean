/-!
# Blank characters, trimming and words

A character is blank when it has the Unicode property `White_Space`. Trimming
removes blanks from both ends of a text, and the words of a text are its longest
blank-free parts.
-/

namespace CollectiveTuner.Text

/-- The code points of the Unicode property `White_Space`, as inclusive intervals in
ascending order. -/
def blankIntervals : List (Nat × Nat) :=
  [(0x0009, 0x000D), (0x0020, 0x0020), (0x0085, 0x0085), (0x00A0, 0x00A0), (0x1680, 0x1680),
   (0x2000, 0x200A), (0x2028, 0x2029), (0x202F, 0x202F), (0x205F, 0x205F), (0x3000, 0x3000)]

/-- A character with the property `White_Space`. -/
def isBlank (c : Char) : Bool :=
  blankIntervals.any fun interval => interval.1 ≤ c.toNat && c.toNat ≤ interval.2

/-- The text without its leading blanks. -/
def trimStart (text : List Char) : List Char :=
  text.dropWhile isBlank

/-- The text without its trailing blanks. -/
def trimEnd (text : List Char) : List Char :=
  (text.reverse.dropWhile isBlank).reverse

/-- The text without blanks at either end. -/
def trim (text : List Char) : List Char :=
  trimEnd (trimStart text)

/-- The longest blank-free parts of the text, in order. -/
def words (text : List Char) : List (List Char) :=
  (text.splitOnP isBlank).filter fun word => !word.isEmpty

/-- The parts before and after the first character that satisfies `p`, or nothing when no
character does. -/
def splitOnce (p : Char → Bool) : List Char → Option (List Char × List Char)
  | [] => none
  | c :: rest => if p c then some ([], rest) else (splitOnce p rest).map fun (a, b) => (c :: a, b)

/-- A text without a separator is not split. -/
theorem splitOnce_eq_none_iff {p : Char → Bool} {text : List Char} :
    splitOnce p text = none ↔ ∀ c ∈ text, p c = false := by
  induction text with
  | nil => simp [splitOnce]
  | cons c rest ih => cases hc : p c <;> simp [splitOnce, hc, ih]

/-- A text is split at its first separator. -/
theorem splitOnce_append {p : Char → Bool} {before : List Char} {c : Char} (after : List Char)
    (hbefore : ∀ c' ∈ before, p c' = false) (hc : p c = true) :
    splitOnce p (before ++ c :: after) = some (before, after) := by
  induction before with
  | nil => simp [splitOnce, hc]
  | cons first rest ih =>
    have hrest := ih fun c' hc' => hbefore c' (List.mem_cons_of_mem _ hc')
    simp [splitOnce, hbefore first List.mem_cons_self, hrest]

/-- The parts of a split text have the first separator between them. -/
theorem exists_of_splitOnce {p : Char → Bool} {text before after : List Char}
    (hsplit : splitOnce p text = some (before, after)) :
    ∃ c, p c = true ∧ text = before ++ c :: after ∧ ∀ c' ∈ before, p c' = false := by
  induction text generalizing before with
  | nil => cases hsplit
  | cons c rest ih =>
    rw [splitOnce] at hsplit
    split at hsplit
    · next hc =>
      obtain ⟨rfl, rfl⟩ := Prod.mk.inj (Option.some.inj hsplit)
      exact ⟨c, hc, rfl, by simp⟩
    · next hc =>
      obtain ⟨⟨first, second⟩, hrest, hparts⟩ := Option.map_eq_some_iff.mp hsplit
      obtain ⟨rfl, rfl⟩ := Prod.mk.inj hparts
      obtain ⟨d, hd, rfl, hfirst⟩ := ih hrest
      exact ⟨d, hd, rfl, by simpa [hc] using hfirst⟩

end CollectiveTuner.Text
