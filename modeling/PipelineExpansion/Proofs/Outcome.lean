/-!
# Outcomes

Steps that may fail are taken one after another. The first lemmas take a success apart into the
successes of its steps, and so does `run_bind_eq_ok` where a state is kept. `Ensures x P` says that what
`x` returns, if it returns anything, has the property `P`; it is proved step by step, and for a fold by
an invariant.
-/

namespace PipelineExpansion

variable {ε ε' α β σ : Type}

/-- Two steps succeed when both do. -/
theorem bind_eq_ok {x : Except ε α} {f : α → Except ε β} {b : β} :
    x >>= f = .ok b ↔ ∃ a, x = .ok a ∧ f a = .ok b := by
  constructor
  · intro h
    cases x with
    | error e => cases h
    | ok a => exact ⟨a, rfl, h⟩
  · rintro ⟨a, rfl, h⟩
    exact h

/-- A step that comes down to a value hands it on. -/
theorem bind_of_eq_pure {m : Type → Type} [Monad m] [LawfulMonad m] {x : m α} {a : α}
    (h : x = pure a) (f : α → m β) : x >>= f = f a := by
  rw [h, pure_bind]

/-- A check that comes down to nothing for every item does so for all of them. -/
theorem forM_eq_pure {m : Type → Type} [Monad m] [LawfulMonad m] {check : α → m PUnit}
    {items : List α} (h : ∀ a ∈ items, check a = pure ⟨⟩) : items.forM check = pure ⟨⟩ := by
  rw [List.forM_eq_forM]
  induction items with
  | nil => rfl
  | cons a rest ih =>
      obtain ⟨ha, hrest⟩ := List.forall_mem_cons.mp h
      rw [List.forM_cons, ha, pure_bind, ih hrest]

/-- Another wording of the faults does not change a success. -/
theorem mapError_eq_ok {x : Except ε α} {f : ε → ε'} {a : α} :
    x.mapError f = .ok a ↔ x = .ok a := by
  cases x with
  | error e => exact ⟨nofun, nofun⟩
  | ok b =>
      constructor
      · intro h
        rw [Except.ok.inj h]
      · intro h
        rw [Except.ok.inj h]
        rfl

/-- A check of all items succeeds when it does for each. -/
theorem forM_eq_ok {f : α → Except ε Unit} {xs : List α} :
    xs.forM f = .ok () ↔ ∀ x ∈ xs, f x = .ok () := by
  rw [List.forM_eq_forM]
  induction xs with
  | nil => simp [pure, Except.pure]
  | cons x rest ih =>
      rw [List.forM_cons, bind_eq_ok, List.forall_mem_cons, ← ih]
      exact ⟨fun ⟨_, hx, hrest⟩ => ⟨hx, hrest⟩, fun ⟨hx, hrest⟩ => ⟨(), hx, hrest⟩⟩

/-- Steps that all fail alike fail together when one of them does. -/
theorem mapM_of_eq_ite {f : α → Except ε β} {fails : α → Bool} {e : ε} {g : α → β}
    (h : ∀ a, f a = if fails a then .error e else .ok (g a)) (items : List α) :
    items.mapM f = if items.any fails then .error e else .ok (items.map g) := by
  induction items with
  | nil => rfl
  | cons a rest ih =>
      rw [List.mapM_cons, h, ih, List.any_cons]
      cases fails a with
      | true => rfl
      | false =>
        rw [if_neg Bool.false_ne_true, Bool.false_or]
        split <;> rfl

/-- Steps that succeed under a condition succeed together when it holds of all items. -/
theorem mapM_eq_ok_iff {f : α → Except ε β} {P : α → Prop} {g : α → β}
    (h : ∀ a b, f a = .ok b ↔ P a ∧ g a = b) {items : List α} {bs : List β} :
    items.mapM f = .ok bs ↔ (∀ a ∈ items, P a) ∧ items.map g = bs := by
  induction items generalizing bs with
  | nil => simp [pure, Except.pure]
  | cons a rest ih =>
      rw [List.mapM_cons, List.forall_mem_cons, List.map_cons]
      simp only [bind_eq_ok, h, ih]
      constructor
      · rintro ⟨_, ⟨ha, rfl⟩, _, ⟨hrest, rfl⟩, ⟨⟩⟩
        exact ⟨⟨ha, hrest⟩, rfl⟩
      · rintro ⟨⟨ha, hrest⟩, rfl⟩
        exact ⟨_, ⟨ha, rfl⟩, _, ⟨hrest, rfl⟩, rfl⟩

theorem foldlM_eq_ok_iff {step : σ → α → Except ε σ} {P : α → Prop} {g : σ → α → σ}
    (h : ∀ s a s', step s a = .ok s' ↔ P a ∧ g s a = s') {items : List α} {s s' : σ} :
    items.foldlM step s = .ok s' ↔ (∀ a ∈ items, P a) ∧ items.foldl g s = s' := by
  induction items generalizing s with
  | nil => simp [pure, Except.pure]
  | cons a rest ih =>
      rw [List.foldlM_cons, List.forall_mem_cons, List.foldl_cons]
      simp only [bind_eq_ok, h, ih]
      constructor
      · rintro ⟨_, ⟨ha, rfl⟩, hrest, rfl⟩
        exact ⟨⟨ha, hrest⟩, rfl⟩
      · rintro ⟨⟨ha, hrest⟩, rfl⟩
        exact ⟨_, ⟨ha, rfl⟩, hrest, rfl⟩

/-! ### Success alone

Where it does not matter how a step fails, `Except.toOption` is all that counts. -/

theorem toOption_eq_some {x : Except ε α} {a : α} : x.toOption = some a ↔ x = .ok a := by
  cases x with
  | error e => exact ⟨nofun, nofun⟩
  | ok b => exact ⟨fun h => congrArg _ (Option.some.inj h), fun h => congrArg _ (Except.ok.inj h)⟩

theorem toOption_bind (x : Except ε α) (f : α → Except ε β) :
    (x >>= f).toOption = x.toOption.bind fun a => (f a).toOption := by
  cases x <;> rfl

/-- Steps over other items return the same if each does. -/
theorem toOption_mapM_map {f : α → Except ε β} {g : α → α}
    (h : ∀ a, (f (g a)).toOption = (f a).toOption) (items : List α) :
    ((items.map g).mapM f).toOption = (items.mapM f).toOption := by
  induction items with
  | nil => rfl
  | cons a rest ih => simp only [List.map_cons, List.mapM_cons, toOption_bind, h, ih]

theorem toOption_foldlM_map {step : σ → α → Except ε σ} {g : α → α}
    (h : ∀ s a, (step s (g a)).toOption = (step s a).toOption) (items : List α) (s : σ) :
    ((items.map g).foldlM step s).toOption = (items.foldlM step s).toOption := by
  induction items generalizing s with
  | nil => rfl
  | cons a rest ih => simp only [List.map_cons, List.foldlM_cons, toOption_bind, h, ih]

/-! ### Steps that keep a state -/

theorem run_bind (step : ExceptT ε (StateM σ) α) (f : α → ExceptT ε (StateM σ) β) (s : σ) :
    (step >>= f).run.run s =
      match step.run.run s with
      | (.ok a, s') => (f a).run.run s'
      | (.error e, s') => (.error e, s') := by
  rw [ExceptT.run_bind, StateT.run_bind]
  rcases step.run.run s with ⟨_ | _, s'⟩ <;> rfl

/-- Two steps return when both do. -/
theorem run_bind_eq_ok {step : ExceptT ε (StateM σ) α} {f : α → ExceptT ε (StateM σ) β} {s s' : σ}
    {b : β} : (step >>= f).run.run s = (.ok b, s') ↔
      ∃ a s₁, step.run.run s = (.ok a, s₁) ∧ (f a).run.run s₁ = (.ok b, s') := by
  rw [run_bind]
  constructor
  · intro h
    split at h
    · next a s₁ hstep => exact ⟨a, s₁, hstep, h⟩
    · cases h
  · rintro ⟨a, s₁, hstep, hf⟩
    rw [hstep]
    exact hf

/-! ### What is returned -/

/-- What a step returns, if it returns anything, has a property. -/
def Ensures (x : Except ε α) (P : α → Prop) : Prop := ∀ a, x = .ok a → P a

theorem ensures_pure {a : α} {P : α → Prop} (h : P a) : Ensures (pure a : Except ε α) P := by
  rintro b ⟨⟩
  exact h

theorem ensures_ok {a : α} {P : α → Prop} (h : P a) : Ensures (.ok a : Except ε α) P :=
  ensures_pure h

theorem ensures_error (e : ε) (P : α → Prop) : Ensures (.error e : Except ε α) P := nofun

theorem Ensures.bind {x : Except ε α} {f : α → Except ε β} {P : α → Prop} {Q : β → Prop}
    (h : Ensures x P) (h' : ∀ a, P a → Ensures (f a) Q) : Ensures (x >>= f) Q := by
  intro b hb
  obtain ⟨a, ha, hb⟩ := bind_eq_ok.mp hb
  exact h' a (h a ha) b hb

/-- Steps before the last do not matter when the last one always has the property. -/
theorem ensures_bind_of_forall {x : Except ε α} {f : α → Except ε β} {Q : β → Prop}
    (h : ∀ a, Ensures (f a) Q) : Ensures (x >>= f) Q :=
  Ensures.bind (P := fun _ => True) (fun _ _ => trivial) fun a _ => h a

/-- A value that is made of what a step returns. -/
theorem Ensures.map {x : Except ε α} {f : α → β} {P : α → Prop} {Q : β → Prop}
    (h : Ensures x P) (h' : ∀ a, P a → Q (f a)) : Ensures (x.map f) Q := by
  cases x with
  | error e => exact ensures_error e Q
  | ok a => exact ensures_ok (h' a (h a rfl))

/-- A fold keeps an invariant that the step of each item keeps. -/
theorem ensures_foldlM_of_mem {step : σ → α → Except ε σ} {P : σ → Prop} {items : List α}
    (hstep : ∀ a ∈ items, ∀ s, P s → Ensures (step s a) P) {s : σ} (h : P s) :
    Ensures (items.foldlM step s) P := by
  induction items generalizing s with
  | nil => exact ensures_pure h
  | cons a rest ih =>
      obtain ⟨ha, hrest⟩ := List.forall_mem_cons.mp hstep
      rw [List.foldlM_cons]
      exact (ha s h).bind fun s' hs' => ih hrest hs'

/-- A fold keeps an invariant of its steps. -/
theorem ensures_foldlM {step : σ → α → Except ε σ} {P : σ → Prop}
    (hstep : ∀ s a, P s → Ensures (step s a) P) {s : σ} (h : P s) (items : List α) :
    Ensures (items.foldlM step s) P :=
  ensures_foldlM_of_mem (fun a _ s => hstep s a) h

end PipelineExpansion
