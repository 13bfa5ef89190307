import PipelineExpansion.Proofs.Pipeline.Congruence

/-!
# How deep references lead does not matter

`load` bounds how deep references may lead, and a run that leads deeper has no outcome. The bound is
scaffolding: a run that has an outcome has the same one wherever references may lead deeper
(`run_loadTo_mono`). So `Ends` may speak of the outcome of a load without a bound, and there is at
most one (`Ends.unique`).

This is the simplest use of the congruence of loads. Two runs agree but for those that fail in a way
that is excused (`Agree`), and here a run is excused where it leads too deep.

## Main results

* `agreement`: to agree is a congruence.
* `run_loadTo_mono`, `Ends.unique`: an outcome does not depend on the depth.
-/

namespace PipelineExpansion.Pipeline

open Template

/-! ### Agreement -/

/-- A run fails in one of some ways: it leads too deep, or it fails with a diagnostic. -/
inductive Fails {α : Type} (E : Option Diagnostic → Prop) :
    Option (Except Diagnostic α × Journal) → Prop where
  | unfinished (h : E none) : Fails E none
  | refused {d : Diagnostic} {j : Journal} (h : E (some d)) : Fails E (some (.error d, j))

/-- Two steps do the same but where the first fails in one of some ways, and what they return has a
property. -/
structure Agree {α : Type} (E : Option Diagnostic → Prop) (P : α → Prop) (x y : Resolve α) :
    Prop where
  yields : Resolve.Yields x P
  run : ∀ j, x.run.run j = y.run.run j ∨ Fails E (x.run.run j)

variable {E : Option Diagnostic → Prop} {α β : Type} {P : α → Prop} {Q : β → Prop}

/-- What comes behind a failure does not matter. -/
theorem Fails.bind {x : Resolve α} {j : Journal} (h : Fails E (x.run.run j)) (f : α → Resolve β) :
    Fails E ((x >>= f).run.run j) := by
  rw [Resolve.run_bind]
  generalize x.run.run j = r at h
  cases h with
  | unfinished h => exact .unfinished h
  | refused h => exact .refused h

theorem Fails.inFile {x : Resolve α} {j : Journal} {name : String}
    (hE : ∀ d name, E (some d) → E (some (d.withFile name))) (h : Fails E (x.run.run j)) :
    Fails E ((Resolve.inFile name x).run.run j) := by
  rw [Resolve.run_inFile]
  generalize x.run.run j = r at h
  cases h with
  | unfinished h => exact .unfinished h
  | refused h => exact .refused (hE _ name h)

theorem Agree.refl {x : Resolve α} (h : Resolve.Yields x P) : Agree E P x x := ⟨h, fun _ => .inl rfl⟩

theorem Agree.bind {x y : Resolve α} {f g : α → Resolve β} (h : Agree E P x y)
    (h' : ∀ a, P a → Agree E Q (f a) (g a)) : Agree E Q (x >>= f) (y >>= g) := by
  refine ⟨h.yields.bind fun a ha => (h' a ha).yields, fun j => ?_⟩
  rcases h.run j with heq | hfails
  · rw [Resolve.run_bind, Resolve.run_bind, ← heq]
    rcases hx : x.run.run j with _ | ⟨d | a, j'⟩
    · exact .inl rfl
    · exact .inl rfl
    · exact (h' a (h.yields j a j' hx)).run j'
  · exact .inr (hfails.bind f)

theorem Agree.inFile {x y : Resolve α} {name : String}
    (hE : ∀ d name, E (some d) → E (some (d.withFile name))) (h : Agree E P x y) :
    Agree E P (.inFile name x) (.inFile name y) := by
  refine ⟨h.yields.inFile name, fun j => ?_⟩
  rcases h.run j with heq | hfails
  · rw [Resolve.run_inFile, Resolve.run_inFile, heq]
    exact .inl rfl
  · exact .inr (hfails.inFile hE)

/-- To agree is a congruence where opening a template and evaluating it agree, and naming the file of
a failure does not change whether it is excused. -/
def agreement {left right : Setting} (hE : ∀ d name, E (some d) → E (some (d.withFile name)))
    (hopening : ∀ (c : Context) (path : String), Agree E (fun _ => True)
      (openTemplate (c.under left) path) (openTemplate (c.under right) path))
    (hevaluation : ∀ (t names : Token) (u : Usage), Agree E (fun _ => True)
      (.charged (evaluate left.limits t names) u) (.charged (evaluate right.limits t names) u)) :
    Congruence left right Set.univ Set.univ where
  Rel _ _ _ P x y := Agree E P x y
  read h := .refl (Resolve.yields_ofExcept h.returns)
  bind := .bind
  inFile _ h := h.inFile hE
  note _ := .refl (Resolve.yields_true _)
  opening c path := ⟨fun _ _ _ _ => ⟨fun _ _ => trivial, trivial⟩, (hopening c path).run⟩
  evaluation u _ _ := ⟨fun _ _ _ _ _ _ => trivial, (hevaluation _ _ u).run⟩
  wider h := h

theorem from_univ (t : Token) : t.From Set.univ := fun _ _ => trivial

/-! ### Depth -/

/-- The same load, in one setting, where references may lead deeper. -/
def deeper (s : Setting) : Congruence s s Set.univ Set.univ :=
  agreement (E := (· = none)) nofun (fun _ _ => .refl (Resolve.yields_true _))
    fun _ _ _ => .refl (Resolve.yields_true _)

/-- Loads the pipeline at a path, where references may lead to a depth. -/
def loadTo (depth : Nat) (c : Context) (path : String) (parameters : Option Token) :
    Resolve Pipeline :=
  pipelineOf (references depth) c path parameters Schema.pipelineRoot

theorem load_eq_loadTo (c : Context) (path : String) (parameters : Option Token) :
    load c path parameters = loadTo (nesting c.limits) c path parameters := rfl

/-- What leads too deep agrees with anything. -/
theorem agree_unfinished (hnone : E none) (y : Resolve α) : Agree E P .unfinished y :=
  ⟨Resolve.yields_unfinished P, fun _ => .inr (.unfinished hnone)⟩

/-- **An outcome stays where references may lead deeper.** -/
theorem run_loadTo_mono {depth depth' : Nat} (h : depth ≤ depth') {c : Context} {path : String}
    {parameters : Option Token} {j : Journal} {outcome : Except Diagnostic Pipeline × Journal}
    (hrun : (loadTo depth c path parameters).run.run j = some outcome) :
    (loadTo depth' c path parameters).run.run j = some outcome := by
  obtain ⟨more, rfl⟩ := Nat.exists_eq_add_of_le h
  -- At depth zero the first run leads too deep, and that agrees with anything.
  have hnone {α : Type} {P : α → Prop} (y : Resolve α) : Agree (· = none) P .unfinished y :=
    agree_unfinished (E := (· = none)) rfl y
  have hagree : Agree (· = none) (From Set.univ) (loadTo depth c path parameters)
      (loadTo (depth + more) c path parameters) :=
    (deeper ⟨c.files, c.limits⟩).pipelineOf
      (Congruence.references _ (Congruence.related_none hnone _) depth) c path
      (fun t _ => from_univ t) Schema.pipelineRoot
  rcases hagree.run j with heq | hfails
  · exact heq.symm.trans hrun
  · rw [hrun] at hfails
    rcases hfails with _ | ⟨⟨⟩⟩

/-- A load comes to an outcome, wherever references may lead deep enough. -/
def Ends (c : Context) (path : String) (parameters : Option Token)
    (outcome : Except Diagnostic Pipeline × Journal) : Prop :=
  ∃ depth, (loadTo depth c path parameters).run.run {} = some outcome

section Ends

variable {c : Context} {path : String} {parameters : Option Token}
  {outcome outcome' : Except Diagnostic Pipeline × Journal}

/-- A load comes to one outcome at most. -/
theorem Ends.unique (h : Ends c path parameters outcome) (h' : Ends c path parameters outcome') :
    outcome = outcome' := by
  obtain ⟨depth, hrun⟩ := h
  obtain ⟨depth', hrun'⟩ := h'
  have hdeep := run_loadTo_mono (Nat.le_max_left depth depth') hrun
  have hdeep' := run_loadTo_mono (Nat.le_max_right depth depth') hrun'
  exact Option.some.inj (hdeep.symm.trans hdeep')

theorem ends_of_load (h : (load c path parameters).run.run {} = some outcome) :
    Ends c path parameters outcome := by
  rw [load_eq_loadTo] at h
  exact ⟨_, h⟩

end Ends

end PipelineExpansion.Pipeline
