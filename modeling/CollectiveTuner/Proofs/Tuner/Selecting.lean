import CollectiveTuner.Proofs.Tuner.Groups

/-!
# Selected algorithms

Module parameters, profiles and callers may name any algorithm. One that the module of the
operation does not have is never selected: what is active is registered from the start on, and
what a context chooses is checked. So a selected algorithm always is one that exists.
-/

namespace CollectiveTuner

/-- Every active algorithm is one that the module of its operation has. -/
def Catalog.Registered (catalog : Catalog) : Prop :=
  ∀ op : Collective, ((op.choices.any fun choice => choice.id == catalog.active op) = true)

/-- The default catalog has only registered algorithms. -/
theorem Catalog.registered_default : Catalog.default.Registered := by
  intro op
  cases op <;> decide

/-- Activating an algorithm that can be activated keeps a catalog registered. -/
theorem Catalog.Registered.activate {catalog after : Catalog} {op : Collective} {id : AlgorithmId}
    (hregistered : catalog.Registered) (hafter : catalog.activate op id = .ok after) :
    after.Registered := by
  obtain ⟨hid, rfl⟩ := Catalog.activate_eq_ok_iff.mp hafter
  intro other
  by_cases hop : other = op
  · subst hop
    simpa [Collective.update_same] using hid
  · simpa [Collective.update_other _ _ hop] using hregistered other

/-- Of two computations after one another, the first one has a value when both have. -/
theorem exists_of_value_bind {α β : Type} {first : ExceptT Error Logged α}
    {next : α → ExceptT Error Logged β} {result : β}
    (hresult : (first >>= next).run.value = .ok result) :
    ∃ value, first.run.value = .ok value ∧ (next value).run.value = .ok result := by
  rw [Tuner.value_run_bind] at hresult
  cases hfirst : first.run.value with
  | error error =>
    rw [hfirst] at hresult
    cases hresult
  | ok value =>
    rw [hfirst] at hresult
    exact ⟨value, rfl, hresult⟩

/-- Following a module selection keeps a catalog registered. -/
theorem registered_selectStatic {catalog after : Catalog} {name params : String}
    (hregistered : catalog.Registered)
    (hafter : (SelectionContext.selectStatic catalog name params).run.value = .ok after) :
    after.Registered := by
  unfold SelectionContext.selectStatic at hafter
  cases hop : Collective.ofShortName? name with
  | none =>
    rw [hop] at hafter
    obtain rfl := Except.ok.inj hafter
    exact hregistered
  | some op =>
    rw [hop] at hafter
    obtain ⟨id, -, hafter⟩ := exists_of_value_bind hafter
    cases hactivate : catalog.activate op id with
    | ok activated =>
      rw [hactivate] at hafter
      obtain rfl := Except.ok.inj hafter
      exact hregistered.activate hactivate
    | error error =>
      rw [hactivate] at hafter
      obtain ⟨_, -, hafter⟩ := exists_of_value_bind hafter
      obtain ⟨activated, hdefault, hafter⟩ := exists_of_value_bind hafter
      obtain rfl := Except.ok.inj hafter
      exact hregistered.activate hdefault

/-- Following all module selections keeps a catalog registered. -/
theorem registered_prepareStatic {entries : List (String × String)} {catalog after : Catalog}
    (hregistered : catalog.Registered)
    (hafter : (entries.foldlM (fun catalog (name, params) =>
      SelectionContext.selectStatic catalog name params) catalog : ExceptT Error Logged
        Catalog).run.value = .ok after) : after.Registered := by
  induction entries generalizing catalog with
  | nil =>
    obtain rfl := Except.ok.inj hafter
    exact hregistered
  | cons entry rest ih =>
    rw [List.foldlM_cons] at hafter
    obtain ⟨between, hbetween, hafter⟩ := exists_of_value_bind hafter
    exact ih (registered_selectStatic hregistered hbetween) hafter

/-- Preparing a context keeps the catalog registered. -/
theorem registered_prepare {files : Files} {context after : SelectionContext}
    {catalog catalog' : Catalog} (hregistered : catalog.Registered)
    (hafter : (context.prepare files catalog).run.value = .ok (after, catalog')) :
    catalog'.Registered := by
  cases context with
  | static selections =>
    obtain ⟨prepared, hprepared, hafter⟩ := exists_of_value_bind hafter
    obtain ⟨rfl, rfl⟩ := Prod.mk.inj (Except.ok.inj hafter)
    exact registered_prepareStatic hregistered hprepared
  | tuned path table =>
    obtain ⟨prepared, -, hafter⟩ := exists_of_value_bind hafter
    obtain ⟨rfl, rfl⟩ := Prod.mk.inj (Except.ok.inj hafter)
    exact hregistered

namespace Tuner

variable {host : Host} {configuration : Configuration} {tuner after : Tuner} {op : Collective}
  {id : AlgorithmId}

/-- A tuner that was started has a registered catalog. -/
theorem registered_of_start {me : Member}
    (hstart : (start host me configuration).run.value = .ok tuner) : tuner.catalog.Registered := by
  obtain ⟨_, _, _, -, hprepare, rfl⟩ := exists_of_start hstart
  exact registered_prepare Catalog.registered_default hprepare

/-- Whatever the context chooses, a registered algorithm is selected. -/
theorem registered_select (hregistered : tuner.catalog.Registered) (op : Collective) (size : Nat) :
    (op.choices.any fun choice => choice.id == (tuner.select op size).value) = true := by
  unfold select
  dsimp only
  cases tuner.context.algorithmFor op size tuner.me.size with
  | error error => exact hregistered op
  | ok id =>
    dsimp only
    unfold Choice.validate
    cases hid : (tuner.catalog.module op).choices.any fun choice => choice.id == id with
    | false => exact hregistered op
    | true => exact hid

/-- Each registered identifier has its algorithm. -/
theorem exists_algorithm (hid : (op.choices.any fun choice => choice.id == id) = true) :
    ∃ algorithm : Algorithm op, Algorithm.ofId? op id = some algorithm ∧ algorithm.id = id := by
  have hsome : (Algorithm.ofId? op id).isSome := by
    simpa [Algorithm.ofId?, Collective.choices, List.find?_isSome] using hid
  obtain ⟨algorithm, hfound⟩ := Option.isSome_iff_exists.mp hsome
  exact ⟨algorithm, hfound, id_of_ofId? hfound⟩

end Tuner

end CollectiveTuner
