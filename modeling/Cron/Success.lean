/-
  Cron/Success.lean
  =================
  **When computations that can fail succeed, and with what they fail.**

  Readers and checks here are chains of steps, each of which can stop the chain with
  an error.  A chain succeeds when all its steps do, and fails with the error of the
  first step that fails.  The lemmas below say so for the ways in which steps are
  put together.  Renaming the error of a chain is renaming those of its steps.
-/

namespace Cron

variable {ε ε' α β : Type}

/-! ### One step -/

theorem bind_eq_ok_iff {step : Except ε α} {next : α → Except ε β} {result : β} :
    step >>= next = .ok result ↔ ∃ value, step = .ok value ∧ next value = .ok result := by
  cases step with
  | error error =>
    constructor
    case mp => intro h; cases h
    case mpr => rintro ⟨_, h, _⟩; cases h
  | ok value =>
    constructor
    case mp => exact fun h => ⟨value, rfl, h⟩
    case mpr =>
      rintro ⟨_, h, hnext⟩
      cases h
      exact hnext

theorem map_eq_ok_iff {step : Except ε α} {f : α → β} {result : β} :
    step.map f = .ok result ↔ ∃ value, step = .ok value ∧ f value = result := by
  cases step with
  | error error =>
    constructor
    case mp => intro h; cases h
    case mpr => rintro ⟨_, h, _⟩; cases h
  | ok value =>
    constructor
    case mp => exact fun h => ⟨value, rfl, Except.ok.inj h⟩
    case mpr =>
      rintro ⟨_, h, rfl⟩
      cases h
      rfl

theorem mapError_eq_ok_iff {step : Except ε α} {f : ε → ε'} {value : α} :
    step.mapError f = .ok value ↔ step = .ok value := by
  cases step with
  | error error =>
    constructor
    all_goals intro h; cases h
  | ok value =>
    constructor
    all_goals exact fun h => congrArg Except.ok (Except.ok.inj h)

theorem ite_error_eq_ok_iff {p : Prop} [Decidable p] {error : ε} {step : Except ε α} {value : α} :
    (if p then .error error else step) = .ok value ↔ ¬ p ∧ step = .ok value := by
  by_cases h : p
  · simp [h]
  · simp [h]

theorem bind_eq_error_iff {step : Except ε α} {next : α → Except ε β} {error : ε} :
    step >>= next = .error error ↔
      step = .error error ∨ ∃ value, step = .ok value ∧ next value = .error error := by
  cases step with
  | error cause => simp [bind, Except.bind]
  | ok value => simp [bind, Except.bind]

theorem map_eq_error_iff {step : Except ε α} {f : α → β} {error : ε} :
    step.map f = .error error ↔ step = .error error := by
  cases step with
  | error cause => simp [Except.map]
  | ok value => simp [Except.map]

theorem mapError_eq_error_iff {step : Except ε α} {f : ε → ε'} {error : ε'} :
    step.mapError f = .error error ↔ ∃ cause, step = .error cause ∧ f cause = error := by
  cases step with
  | error cause =>
    constructor
    case mp => exact fun h => ⟨cause, rfl, Except.error.inj h⟩
    case mpr =>
      rintro ⟨_, h, rfl⟩
      cases h
      rfl
  | ok value =>
    constructor
    case mp => intro h; cases h
    case mpr => rintro ⟨_, h, _⟩; cases h

theorem ite_error_eq_error_iff {p : Prop} [Decidable p] {error cause : ε} {step : Except ε α} :
    (if p then .error cause else step) = .error error ↔
      p ∧ cause = error ∨ ¬ p ∧ step = .error error := by
  by_cases h : p
  · simp [h]
  · simp [h]

/-! ### A step for each of a list -/

theorem forM_eq_ok_iff {check : α → Except ε Unit} {items : List α} :
    items.forM check = .ok () ↔ ∀ item ∈ items, check item = .ok () := by
  induction items with
  | nil => exact ⟨fun _ _ h => absurd h List.not_mem_nil, fun _ => rfl⟩
  | cons item items ih =>
    have hcons : (item :: items).forM check = check item >>= fun _ => items.forM check := rfl
    rw [hcons, bind_eq_ok_iff, List.forall_mem_cons, ← ih]
    exact ⟨fun ⟨_, hitem, hitems⟩ => ⟨hitem, hitems⟩, fun ⟨hitem, hitems⟩ => ⟨(), hitem, hitems⟩⟩

/-- The error is that of the first item that has one. -/
theorem forM_eq_error_iff {check : α → Except ε Unit} {items : List α} {error : ε} :
    items.forM check = .error error ↔
      ∃ before item after, items = before ++ item :: after ∧
        (∀ earlier ∈ before, check earlier = .ok ()) ∧ check item = .error error := by
  induction items with
  | nil =>
    constructor
    · intro h
      cases h
    · rintro ⟨before, item, after, hitems, _⟩
      simp at hitems
  | cons first items ih =>
    have hcons : (first :: items).forM check = check first >>= fun _ => items.forM check := rfl
    rw [hcons, bind_eq_error_iff, ih]
    constructor
    · rintro (hfirst | ⟨_, hfirst, before, item, after, rfl, hbefore, hitem⟩)
      · exact ⟨[], first, items, rfl, List.forall_mem_nil _, hfirst⟩
      · refine ⟨first :: before, item, after, rfl, ?_, hitem⟩
        exact List.forall_mem_cons.mpr ⟨hfirst, hbefore⟩
    · rintro ⟨before, item, after, hitems, hbefore, hitem⟩
      cases before with
      | nil =>
        obtain ⟨rfl, _⟩ := List.cons.inj hitems
        exact Or.inl hitem
      | cons earlier before =>
        obtain ⟨rfl, rfl⟩ := List.cons.inj hitems
        rw [List.forall_mem_cons] at hbefore
        exact Or.inr ⟨(), hbefore.1, before, item, after, rfl, hbefore.2, hitem⟩

/-- Only what a check says about the items of the list counts. -/
theorem forM_congr {check check' : α → Except ε Unit} {items : List α}
    (h : ∀ item ∈ items, check item = check' item) : items.forM check = items.forM check' := by
  induction items with
  | nil => rfl
  | cons first items ih =>
    rw [List.forall_mem_cons] at h
    change (check first >>= fun _ => items.forM check) = _
    rw [h.1, ih h.2]
    rfl

theorem mapM_eq_ok_iff {read : α → Except ε β} {items : List α} {results : List β} :
    items.mapM read = .ok results ↔ items.map read = results.map .ok := by
  induction items generalizing results with
  | nil =>
    cases results with
    | nil => exact ⟨fun _ => rfl, fun _ => rfl⟩
    | cons =>
      constructor
      · intro h
        cases h
      · intro h
        cases h
  | cons item items ih =>
    rw [List.mapM_cons, bind_eq_ok_iff]
    constructor
    · rintro ⟨value, hitem, hrest⟩
      obtain ⟨values, hitems, hresults⟩ := bind_eq_ok_iff.mp hrest
      cases hresults
      rw [List.map_cons, List.map_cons, hitem, ih.mp hitems]
    · intro h
      cases results with
      | nil => cases h
      | cons value values =>
        rw [List.map_cons, List.map_cons, List.cons.injEq] at h
        exact ⟨value, h.1, bind_eq_ok_iff.mpr ⟨values, ih.mpr h.2, rfl⟩⟩

theorem exists_mapM_eq_ok_iff {read : α → Except ε β} {items : List α} :
    (∃ results, items.mapM read = .ok results) ↔
      ∀ item ∈ items, ∃ value, read item = .ok value := by
  induction items with
  | nil => exact ⟨fun _ _ h => absurd h List.not_mem_nil, fun _ => ⟨[], rfl⟩⟩
  | cons item items ih =>
    rw [List.forall_mem_cons, ← ih]
    constructor
    · rintro ⟨results, h⟩
      rw [List.mapM_cons] at h
      obtain ⟨value, hitem, hrest⟩ := bind_eq_ok_iff.mp h
      obtain ⟨values, hitems, _⟩ := bind_eq_ok_iff.mp hrest
      exact ⟨⟨value, hitem⟩, values, hitems⟩
    · rintro ⟨⟨value, hitem⟩, values, hitems⟩
      refine ⟨value :: values, ?_⟩
      rw [List.mapM_cons]
      exact bind_eq_ok_iff.mpr ⟨value, hitem, bind_eq_ok_iff.mpr ⟨values, hitems, rfl⟩⟩

/-! ### Renamed errors -/

theorem mapError_map {f : ε → ε'} {g : α → β} {step : Except ε α} :
    (step.map g).mapError f = (step.mapError f).map g := by
  cases step with
  | error error => rfl
  | ok value => rfl

theorem mapError_bind {f : ε → ε'} {step : Except ε α} {next : α → Except ε β} :
    (step >>= next).mapError f = step.mapError f >>= fun value => (next value).mapError f := by
  cases step with
  | error error => rfl
  | ok value => rfl

theorem mapError_ite_error {f : ε → ε'} {p : Prop} [Decidable p] {error : ε}
    {step : Except ε α} :
    (if p then .error error else step).mapError f =
      if p then .error (f error) else step.mapError f :=
  apply_ite (Except.mapError f) p (.error error) step

theorem mapError_forM {f : ε → ε'} {check : α → Except ε Unit} {items : List α} :
    (items.forM check).mapError f = items.forM fun item => (check item).mapError f := by
  induction items with
  | nil => rfl
  | cons first items ih =>
    change (check first >>= fun _ => items.forM check).mapError f = _
    rw [mapError_bind, ih]
    rfl

theorem mapError_mapM {f : ε → ε'} {read : α → Except ε β} {items : List α} :
    (items.mapM read).mapError f = items.mapM fun item => (read item).mapError f := by
  induction items with
  | nil => rfl
  | cons first items ih =>
    rw [List.mapM_cons, List.mapM_cons, mapError_bind, ← ih]
    simp only [mapError_bind]
    rfl

end Cron
