import PipelineExpansion.Proofs.Outcome
import PipelineExpansion.Template.Journal

/-!
# What journaled steps return

A journaled step returns a value or fails, and the journal outlives both. `Yields step P` says that
what the step returns, if it returns anything, has the property `P`, whatever the journal was.
-/

namespace PipelineExpansion.Template.Journaled

variable {α β : Type}

/-- What a step returns has a property. -/
def Yields (step : Journaled α) (P : α → Prop) : Prop :=
  ∀ j a j', step.run.run j = (.ok a, j') → P a

theorem yields_true (step : Journaled α) : Yields step fun _ => True := fun _ _ _ _ => trivial

/-- What a step returns comes from a run of it. -/
theorem Yields.and_run {step : Journaled α} {P : α → Prop} (h : Yields step P) :
    Yields step fun a => P a ∧ ∃ j j', step.run.run j = (.ok a, j') :=
  fun j a j' hrun => ⟨h j a j' hrun, j, j', hrun⟩

theorem yields_pure {a : α} {P : α → Prop} (h : P a) : Yields (pure a) P := by
  intro j b j' hrun
  cases hrun
  exact h

theorem Yields.bind {step : Journaled α} {f : α → Journaled β} {P : α → Prop} {Q : β → Prop}
    (h : Yields step P) (h' : ∀ a, P a → Yields (f a) Q) : Yields (step >>= f) Q := by
  intro j b j' hrun
  obtain ⟨a, j₁, hstep, hf⟩ := run_bind_eq_ok.mp hrun
  exact h' a (h j a j₁ hstep) j₁ b j' hf

/-- Steps before the last do not matter when the last one always has the property. -/
theorem yields_bind_of_forall {step : Journaled α} {f : α → Journaled β} {Q : β → Prop}
    (h : ∀ a, Yields (f a) Q) : Yields (step >>= f) Q :=
  (yields_true step).bind fun a _ => h a

/-- A value that is there. -/
theorem Yields.some {step : Journaled α} {P : α → Prop} (h : Yields step P) :
    Yields (some <$> step) fun o => ∃ a, o = some a ∧ P a :=
  h.bind fun a ha => yields_pure ⟨a, rfl, ha⟩

/-- A step without effects leaves the journal as it is. -/
theorem run_ofExcept (x : Except Diagnostic α) (j : Journal) : (ofExcept x).run.run j = (x, j) := by
  cases x <;> rfl

theorem run_note (message : String) (j : Journal) :
    (note message).run.run j = (.ok (), { j with notes := j.notes ++ [message] }) := rfl

/-- A file that is asked for is noted, whether it can be read or not. -/
theorem run_readFile (files : Files) (repository : Option String) (path : String) (j : Journal) :
    (readFile files repository path).run.run j =
      ((files.read repository path).mapError (·.diagnostic),
        { j with reads := j.reads ++ [(repository, path)] }) := by
  rw [readFile, run_bind]
  exact run_ofExcept _ _

/-- A file is made known, and it is then that it may be one too many. -/
theorem run_addFile (maximum : Nat) (exceeded : Diagnostic) (name : String) (j : Journal) :
    (addFile maximum exceeded name).run.run j =
      (if 0 < maximum && maximum < j.files.length + 1 then .error exceeded else .ok j.files.length,
        { j with files := j.files ++ [name] }) := by
  have hrun : (addFile maximum exceeded name).run.run j =
      (do
        if 0 < maximum && maximum < j.files.length + 1 then throw exceeded
        return j.files.length : Journaled Nat).run.run { j with files := j.files ++ [name] } := rfl
  rw [hrun]
  split <;> rfl

theorem run_inFile (name : String) (step : Journaled α) (j : Journal) :
    (inFile name step).run.run j =
      ((step.run.run j).1.mapError (·.withFile name), (step.run.run j).2) := rfl

theorem yields_ofExcept {x : Except Diagnostic α} {P : α → Prop} (h : Ensures x P) :
    Yields (ofExcept x) P := by
  intro j a j' hrun
  rw [run_ofExcept] at hrun
  exact h a (Prod.mk.inj hrun).1

/-- Naming the file of a fault does not change what is returned. -/
theorem Yields.inFile {step : Journaled α} {P : α → Prop} (h : Yields step P) (name : String) :
    Yields (inFile name step) P := by
  intro j a j' hrun
  have hpair : (((step.run.run j).1.mapError (·.withFile name), (step.run.run j).2) :
      Except Diagnostic α × Journal) = (.ok a, j') := hrun
  obtain ⟨hok, hjournal⟩ := Prod.mk.inj hpair
  exact h j a j' (Prod.ext (mapError_eq_ok.mp hok) hjournal)

end PipelineExpansion.Template.Journaled
