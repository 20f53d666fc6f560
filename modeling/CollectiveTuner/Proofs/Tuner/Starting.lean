import CollectiveTuner.FileTree
import CollectiveTuner.Proofs.Tuner.Preparing

/-!
# What stops a tuner from starting

A tuner does not start when a scratch pool cannot be had, or when the profiles of its directory
cannot be loaded. Both are fatal. Nothing else that it is told stops it: not the parameters of
modules, no other setting, and no line that is dropped from a profile.
-/

namespace CollectiveTuner

/-! ### Scratch space and contexts -/

namespace SelectionContext

end SelectionContext

namespace Tuner

variable {host : Host} {configuration : Configuration} {me : Member}

/-- The directory whose profiles a configuration asks for. -/
def directory? (configuration : Configuration) : Option String :=
  match configuration.context with
  | .static => none
  | .tuned => configuration.profilePath

/-- Preparing the context of a configuration fails exactly as loading its profiles does. -/
theorem prepare_eq_error_iff {error : Error} :
    ((SelectionContext.ofConfiguration configuration).prepare host
        Catalog.default).run.value = .error error ↔
      (SelectionContext.prepareTuned host (directory? configuration)
        ProfileTable.empty).run.value = .error error := by
  unfold SelectionContext.ofConfiguration directory? SelectionContext.prepare
  cases configuration.context with
  | static =>
    dsimp only
    rw [value_run_bind, SelectionContext.value_prepareStatic]
    constructor <;> intro herror <;> cases herror
  | tuned =>
    dsimp only
    rw [value_run_bind]
    cases (SelectionContext.prepareTuned host configuration.profilePath
      ProfileTable.empty).run.value with
    | error error' =>
      constructor
      · intro herror
        obtain rfl := Except.error.inj herror
        rfl
      · intro herror
        obtain rfl := Except.error.inj herror
        rfl
    | ok table => constructor <;> intro herror <;> cases herror

/-- Scratch space is taken first, and then the context is prepared. -/
theorem start_eq_error_iff {error : Error} :
    (start host me configuration).run.value = .error error ↔
      Scratch.Arena.allocate host.refusedBytes configuration.messageBytes.value
          configuration.integerBytes.value = .error error ∨
        (∃ arena, Scratch.Arena.allocate host.refusedBytes configuration.messageBytes.value
          configuration.integerBytes.value = .ok arena) ∧
        (SelectionContext.prepareTuned host (directory? configuration)
          ProfileTable.empty).run.value = .error error := by
  rw [value_start, equipment, ← prepare_eq_error_iff]
  cases Scratch.Arena.allocate host.refusedBytes configuration.messageBytes.value
      configuration.integerBytes.value with
  | error error' =>
    constructor
    · intro herror
      obtain rfl := Except.error.inj herror
      exact .inl rfl
    · rintro (herror | ⟨⟨_, hok⟩, -⟩)
      · obtain rfl := Except.error.inj herror
        rfl
      · cases hok
  | ok arena =>
    cases ((SelectionContext.ofConfiguration configuration).prepare host
        Catalog.default).run.value with
    | error error' =>
      constructor
      · intro herror
        obtain rfl := Except.error.inj herror
        exact .inr ⟨⟨arena, rfl⟩, rfl⟩
      · rintro (hok | ⟨-, herror⟩)
        · cases hok
        · obtain rfl := Except.error.inj herror
          rfl
    | ok prepared =>
      constructor
      · intro herror
        cases herror
      · rintro (hok | ⟨-, hok⟩) <;> cases hok

/-- A tuner starts when its arena is allocated and its profiles are prepared. -/
theorem exists_start (me : Member)
    (hallocate : ∃ arena, Scratch.Arena.allocate host.refusedBytes configuration.messageBytes.value
      configuration.integerBytes.value = .ok arena)
    (hprepare : ∃ table, (SelectionContext.prepareTuned host (directory? configuration)
      ProfileTable.empty).run.value = .ok table) :
    ∃ tuner, (start host me configuration).run.value = .ok tuner := by
  obtain ⟨arena, hallocate⟩ := hallocate
  obtain ⟨table, hprepare⟩ := hprepare
  cases hstart : (start host me configuration).run.value with
  | ok tuner => exact ⟨tuner, rfl⟩
  | error error =>
    rcases start_eq_error_iff.mp hstart with herror | ⟨-, herror⟩
    · rw [hallocate] at herror
      cases herror
    · rw [hprepare] at herror
      cases herror

end Tuner

end CollectiveTuner
