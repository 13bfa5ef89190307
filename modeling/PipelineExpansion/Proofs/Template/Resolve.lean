import PipelineExpansion.Proofs.Template.Journal
import PipelineExpansion.Template.Resolve

/-!
# What following references yields

A step that follows references may read files and make notes, may fail, and may lead too deep.
`Yields step P` says that what the step returns, if it returns anything, has the property `P`,
whatever the journal was. A step that is equal to `pure a` returns `a` and leaves the journal as it
is; in particular it reads no file.
-/

namespace PipelineExpansion.Template.Resolve

variable {α β σ τ : Type}

/-- What a step returns has a property. -/
def Yields (step : Resolve α) (P : α → Prop) : Prop :=
  ∀ j a j', step.run.run j = some (.ok a, j') → P a

theorem run_bind (step : Resolve α) (f : α → Resolve β) (j : Journal) :
    (step >>= f).run.run j =
      match step.run.run j with
      | some (.ok a, j') => (f a).run.run j'
      | some (.error d, j') => some (.error d, j')
      | none => none := by
  rw [ExceptT.run_bind, StateT.run_bind]
  rcases step.run.run j with _ | ⟨_ | _, j'⟩ <;> rfl

theorem ofExcept_ok_bind (a : α) (f : α → Resolve β) : ofExcept (.ok a) >>= f = f a :=
  pure_bind a f

/-- Two steps without effects, one after the other. -/
theorem ofExcept_bind (x : Except Diagnostic α) (f : α → Except Diagnostic β) :
    ofExcept (x >>= f) = ofExcept x >>= fun a => ofExcept (f a) := by
  cases x with
  | error d => rfl
  | ok a => exact (pure_bind a fun a => ofExcept (f a)).symm

theorem run_ofExcept (x : Except Diagnostic α) (j : Journal) :
    (ofExcept x).run.run j = some (x, j) := by
  cases x <;> rfl

theorem run_ofExcept_eq_ok {x : Except Diagnostic α} {j j' : Journal} {a : α} :
    (ofExcept x).run.run j = some (.ok a, j') ↔ x = .ok a ∧ j = j' := by
  rw [run_ofExcept, Option.some_inj, Prod.mk.injEq]

/-- Two steps return when both do. -/
theorem run_bind_eq_ok {step : Resolve α} {f : α → Resolve β} {j j' : Journal} {b : β} :
    (step >>= f).run.run j = some (.ok b, j') ↔
      ∃ a j₁, step.run.run j = some (.ok a, j₁) ∧ (f a).run.run j₁ = some (.ok b, j') := by
  rw [run_bind]
  constructor
  · intro h
    split at h
    · next a j₁ hstep => exact ⟨a, j₁, hstep, h⟩
    · cases h
    · cases h
  · rintro ⟨a, j₁, hstep, hf⟩
    rw [hstep]
    exact hf

theorem run_note (message : String) (j : Journal) :
    (note message).run.run j = some (.ok (), { j with notes := j.notes ++ [message] }) := rfl

/-- A file that is asked for is noted, whether it can be read or not. -/
theorem run_readFile (files : Files) (repository : Option String) (path : String) (j : Journal) :
    (readFile files repository path).run.run j =
      some ((files.read repository path).mapError (·.diagnostic),
        { j with reads := j.reads ++ [(repository, path)] }) :=
  congrArg some (Journaled.run_readFile files repository path j)

/-- A file that is one too many is noted too. -/
theorem run_addFile (l : Limits) (name : String) (j : Journal) :
    (addFile l name).run.run j =
      some (if 0 < l.maxFiles && l.maxFiles < j.files.length + 1 then .error l.filesExceeded
        else .ok j.files.length, { j with files := j.files ++ [name] }) :=
  congrArg some (Journaled.run_addFile l.maxFiles l.filesExceeded name j)

/-- Charges leave the journal as it is. -/
theorem run_charged (step : Charged α) (u : Usage) (j : Journal) :
    (charged step u).run.run j =
      some ((step.run.run u).1.map fun a => (a, (step.run.run u).2), j) := by
  unfold charged
  rcases step.run.run u with ⟨_ | _, u'⟩ <;> rfl

theorem run_inFile (name : String) (step : Resolve α) (j : Journal) :
    (inFile name step).run.run j =
      (step.run.run j).map fun r => (r.1.mapError (·.withFile name), r.2) := by
  have hrun : (inFile name step).run.run j =
      (step.run.run j >>= fun r => some (r.1.mapError (·.withFile name), r.2)) := rfl
  rw [hrun]
  cases step.run.run j <;> rfl

/-- Naming the file of a failure does not change what is returned. -/
theorem run_inFile_eq_ok {name : String} {step : Resolve α} {j j' : Journal} {a : α} :
    (inFile name step).run.run j = some (.ok a, j') ↔ step.run.run j = some (.ok a, j') := by
  rw [run_inFile]
  cases step.run.run j with
  | none => simp
  | some r =>
      obtain ⟨outcome, j₁⟩ := r
      simp only [Option.map_some, Option.some.injEq, Prod.mk.injEq, mapError_eq_ok]

/-- Naming the file of what fails in two steps is naming it in each. -/
theorem inFile_bind (name : String) (step : Resolve α) (f : α → Resolve β) :
    inFile name (step >>= f) = inFile name step >>= fun a => inFile name (f a) := by
  have hrun (j : Journal) : (inFile name (step >>= f)).run.run j =
      (inFile name step >>= fun a => inFile name (f a)).run.run j := by
    rw [run_inFile, run_bind, run_bind, run_inFile]
    rcases step.run.run j with _ | ⟨d | a, j'⟩
    · rfl
    · rfl
    · exact (run_inFile name (f a) j').symm
  exact funext hrun

theorem yields_true (step : Resolve α) : Yields step fun _ => True := fun _ _ _ _ => trivial

theorem yields_pure {a : α} {P : α → Prop} (h : P a) : Yields (pure a) P := by
  intro j b j' hrun
  cases hrun
  exact h

theorem yields_throw (d : Diagnostic) (P : α → Prop) : Yields (throw d) P := by
  intro j a j' hrun
  cases hrun

theorem yields_unfinished (P : α → Prop) : Yields unfinished P := by
  intro j a j' hrun
  cases hrun

theorem Yields.bind {step : Resolve α} {f : α → Resolve β} {P : α → Prop} {Q : β → Prop}
    (h : Yields step P) (h' : ∀ a, P a → Yields (f a) Q) : Yields (step >>= f) Q := by
  intro j b j' hrun
  rw [run_bind] at hrun
  split at hrun
  · next a j₁ hstep => exact h' a (h j a j₁ hstep) j₁ b j' hrun
  · cases hrun
  · cases hrun

/-- Steps before the last do not matter when the last one always has the property. -/
theorem yields_bind_of_forall {step : Resolve α} {f : α → Resolve β} {Q : β → Prop}
    (h : ∀ a, Yields (f a) Q) : Yields (step >>= f) Q :=
  (yields_true step).bind fun a _ => h a

theorem yields_ofExcept {x : Except Diagnostic α} {P : α → Prop} (h : Ensures x P) :
    Yields (ofExcept x) P := by
  cases x with
  | error d => exact yields_throw d P
  | ok a => exact yields_pure (h a rfl)

/-- A fold keeps an invariant of the steps that it takes. -/
theorem yields_foldlM_of_mem {step : σ → α → Resolve σ} {P : σ → Prop} {items : List α}
    (hstep : ∀ s, ∀ a ∈ items, P s → Yields (step s a) P) {s : σ} (h : P s) :
    Yields (items.foldlM step s) P := by
  induction items generalizing s with
  | nil => exact yields_pure h
  | cons a rest ih =>
      rw [List.foldlM_cons]
      refine (hstep s a List.mem_cons_self h).bind fun s' hs' => ih (fun s a ha => ?_) hs'
      exact hstep s a (List.mem_cons_of_mem _ ha)

/-- A fold keeps an invariant of its steps. -/
theorem yields_foldlM {step : σ → α → Resolve σ} {P : σ → Prop}
    (hstep : ∀ s a, P s → Yields (step s a) P) {s : σ} (h : P s) (items : List α) :
    Yields (items.foldlM step s) P :=
  yields_foldlM_of_mem (fun s a _ => hstep s a) h

/-- What the steps of a fold leave aside may be done behind them. -/
theorem foldlM_comm_of_mem {step : σ → α → Resolve σ} {f : σ → σ} {items : List α}
    (h : ∀ s, ∀ a ∈ items, step (f s) a = step s a >>= fun s' => pure (f s')) (s : σ) :
    items.foldlM step (f s) = items.foldlM step s >>= fun s' => pure (f s') := by
  induction items generalizing s with
  | nil => rfl
  | cons a rest ih =>
      have hrest := ih fun s a hmem => h s a (List.mem_cons_of_mem _ hmem)
      simp only [List.foldlM_cons, h s a List.mem_cons_self, bind_assoc, pure_bind, hrest]

/-- A check of all items that returns has been passed by each. -/
theorem yields_forM {check : α → Resolve PUnit} {P : α → Prop} {items : List α}
    (h : ∀ a, Yields (check a) fun _ => P a) :
    Yields (items.forM check) fun _ => ∀ a ∈ items, P a := by
  rw [List.forM_eq_forM]
  induction items with
  | nil => exact yields_pure (List.forall_mem_nil _)
  | cons a rest ih =>
      rw [List.forM_cons]
      refine (h a).bind fun _ ha => ?_
      intro j b j' hrun
      exact List.forall_mem_cons.mpr ⟨ha, ih j b j' hrun⟩

/-- Naming the file of a fault does not change what is returned. -/
theorem Yields.inFile {step : Resolve α} {P : α → Prop} (h : Yields step P) (name : String) :
    Yields (inFile name step) P :=
  fun j a j' hrun => h j a j' (run_inFile_eq_ok.mp hrun)

/-- What follows a step matters only for what the step returns. -/
theorem bind_congr_of_yields {step : Resolve α} {P : α → Prop} {f g : α → Resolve β}
    (h : Yields step P) (hfg : ∀ a, P a → f a = g a) : step >>= f = step >>= g := by
  have hrun (j : Journal) : (step >>= f).run.run j = (step >>= g).run.run j := by
    rw [run_bind, run_bind]
    split
    · next a j₁ hstep => rw [hfg a (h j a j₁ hstep)]
    · rfl
    · rfl
  exact funext hrun

/-! ### Collecting what items give -/

/-- `all` reads items one after another and collects what `read` gives for each. -/
structure Collects (read : τ → Resolve (List α)) (all : List τ → Resolve (List α)) : Prop where
  nil : all [] = pure []
  cons : ∀ t rest, all (t :: rest) =
    read t >>= fun own => all rest >>= fun others => pure (own ++ others)

section Collects

variable {read : τ → Resolve (List α)} {all : List τ → Resolve (List α)}

/-- What all parts have, the whole has. -/
theorem Collects.yields (hall : Collects read all) {P : α → Prop}
    (h : ∀ t, Yields (read t) fun as => ∀ a ∈ as, P a) (items : List τ) :
    Yields (all items) fun as => ∀ a ∈ as, P a := by
  induction items with
  | nil =>
      rw [hall.nil]
      exact yields_pure (List.forall_mem_nil _)
  | cons t rest ih =>
      rw [hall.cons]
      refine (h t).bind fun own hown => ih.bind fun others hothers => ?_
      exact yields_pure (List.forall_mem_append.mpr ⟨hown, hothers⟩)

/-- What two sequences give, one after the other. -/
theorem Collects.append (hall : Collects read all) (items items' : List τ) :
    all (items ++ items') =
      all items >>= fun own => all items' >>= fun others => pure (own ++ others) := by
  induction items with
  | nil => rw [hall.nil, pure_bind, List.nil_append]; exact (bind_pure _).symm
  | cons t rest ih =>
      simp only [List.cons_append, hall.cons, ih, bind_assoc, pure_bind, List.append_assoc]

/-- Items that each give one thing give these in their order. -/
theorem Collects.map_eq_pure (hall : Collects read all) {write : β → τ} (kept : β → α)
    {items : List β} (h : ∀ b ∈ items, read (write b) = pure [kept b]) :
    all (items.map write) = pure (items.map kept) := by
  induction items with
  | nil => exact hall.nil
  | cons b rest ih =>
      obtain ⟨hb, hrest⟩ := List.forall_mem_cons.mp h
      rw [List.map_cons, hall.cons, hb, pure_bind, ih hrest, pure_bind]
      rfl

end Collects

end PipelineExpansion.Template.Resolve
