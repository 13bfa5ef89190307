import PipelineExpansion.Proofs.Pipeline.Depth

/-!
# A load depends on the files that it asks for

A load notes each file that it asks for, in the order in which it does. Where these files are the
same, the load is the same, whatever other files there are (`run_loadTo_congr_files`). So what is known
of the files that a load has asked for may be used as if there were no others.

## Main results

* `run_loadTo_congr_files`: two loads are the same where the files that the first asks for are.
-/

namespace PipelineExpansion.Pipeline

open Template

/-- Files are the same at some places, each a repository and a path in it. -/
def SameAt (places : List (Option String × String)) (files files' : Files) : Prop :=
  ∀ place ∈ places, files.read place.1 place.2 = files'.read place.1 place.2

theorem SameAt.mono {places places' : List (Option String × String)} {files files' : Files}
    (h : SameAt places' files files') (hsub : places ⊆ places') : SameAt places files files' :=
  fun place hplace => h place (hsub hplace)

/-- A step among some files and a step among others: the first takes back no file that was asked for,
and the second does the same where all that were asked for are the same. -/
structure Local {α : Type} (files files' : Files) (P : α → Prop) (x y : Resolve α) : Prop where
  yields : Resolve.Yields x P
  reads : ∀ j r j', x.run.run j = some (r, j') → j.reads <+: j'.reads
  run : ∀ j r j', x.run.run j = some (r, j') → SameAt j'.reads files files' →
    y.run.run j = some (r, j')

variable {files files' : Files} {α β : Type} {P : α → Prop} {Q : β → Prop} {x y : Resolve α}

/-- A step that has nothing to do with files. -/
theorem local_self (hP : Resolve.Yields x P)
    (hx : ∀ j r j', x.run.run j = some (r, j') → j.reads = j'.reads) : Local files files' P x x where
  yields := hP
  reads j r j' hrun := hx j r j' hrun ▸ List.prefix_refl _
  run _ _ _ hrun _ := hrun

theorem Local.bind {f g : α → Resolve β} (h : Local files files' P x y)
    (h' : ∀ a, P a → Local files files' Q (f a) (g a)) :
    Local files files' Q (x >>= f) (y >>= g) where
  yields := h.yields.bind fun a ha => (h' a ha).yields
  reads := by
    intro j r j' hrun
    rw [Resolve.run_bind] at hrun
    rcases hx : x.run.run j with _ | ⟨d | a, j₁⟩ <;> rw [hx] at hrun
    · cases hrun
    · cases hrun
      exact h.reads j _ _ hx
    · have ha := h.yields j a j₁ hx
      exact (h.reads j _ _ hx).trans ((h' a ha).reads j₁ r j' hrun)
  run := by
    intro j r j' hrun hsame
    rw [Resolve.run_bind] at hrun ⊢
    rcases hx : x.run.run j with _ | ⟨d | a, j₁⟩ <;> rw [hx] at hrun
    · cases hrun
    · cases hrun
      rw [h.run j _ _ hx hsame]
    · have hrest := h' a (h.yields j a j₁ hx)
      rw [h.run j _ _ hx (hsame.mono (hrest.reads j₁ r j' hrun).subset)]
      exact hrest.run j₁ r j' hrun hsame

theorem Local.inFile (h : Local files files' P x y) (name : String) :
    Local files files' P (.inFile name x) (.inFile name y) where
  yields := h.yields.inFile name
  reads := by
    intro j r j' hrun
    rw [Resolve.run_inFile] at hrun
    obtain ⟨⟨r, j'⟩, hx, hpair⟩ := Option.map_eq_some_iff.mp hrun
    cases hpair
    exact h.reads j r j' hx
  run := by
    intro j r j' hrun hsame
    rw [Resolve.run_inFile] at hrun ⊢
    obtain ⟨⟨r, j'⟩, hx, hpair⟩ := Option.map_eq_some_iff.mp hrun
    cases hpair
    rw [h.run j r j' hx hsame]
    rfl

/-- A file that is asked for is noted, and it is one of those that have to be the same. -/
theorem local_readFile (repository : Option String) (path : String) :
    Local files files' (fun _ => True) (Resolve.readFile files repository path)
      (Resolve.readFile files' repository path) where
  yields := Resolve.yields_true _
  reads := by
    intro j r j' hrun
    rw [Resolve.run_readFile] at hrun
    cases hrun
    exact List.prefix_append _ _
  run := by
    intro j r j' hrun hsame
    rw [Resolve.run_readFile] at hrun ⊢
    cases hrun
    rw [hsame (repository, path) (List.mem_append_right _ (List.mem_singleton_self _))]

theorem local_ofExcept {x : Except Diagnostic α} (h : Ensures x P) :
    Local files files' P (.ofExcept x) (.ofExcept x) := by
  refine local_self (Resolve.yields_ofExcept h) fun j r j' hrun => ?_
  rw [Resolve.run_ofExcept] at hrun
  cases hrun
  rfl

theorem local_pure {a : α} (h : P a) : Local files files' P (pure a) (pure a) :=
  local_ofExcept (x := .ok a) fun _ ha => Except.ok.inj ha ▸ h

theorem local_charged (x : Charged α) (u : Usage) :
    Local files files' (fun _ => True) (Resolve.charged x u) (Resolve.charged x u) := by
  refine local_self (Resolve.yields_true _) fun j r j' hrun => ?_
  rw [Resolve.run_charged] at hrun
  cases hrun
  rfl

/-- Makes the text of a template known: its token, and what it has used up. -/
def textTemplate (l : Limits) (name content : String) : Resolve (Token × Usage) := do
  let (_, usage) ← Resolve.charged (l.chargeBytes content.utf8ByteSize) {}
  let file ← Resolve.addFile l name
  return (← Resolve.ofExcept (Token.ofText? (some file) content), usage)

/-- What follows the reading of a template has nothing to do with files. -/
theorem openTemplate_eq (c : Context) (path : String) :
    openTemplate c path = Resolve.inFile (displayName path c.repository)
      (Resolve.readFile c.files c.repository path >>=
        textTemplate c.limits (displayName path c.repository)) := rfl

theorem local_textTemplate (l : Limits) (name content : String) :
    Local files files' (fun _ => True) (textTemplate l name content) (textTemplate l name content) := by
  refine Local.bind (local_charged _ _) fun charge _ => ?_
  refine Local.bind (P := fun _ => True) ?_ fun file _ => ?_
  · refine local_self (Resolve.yields_true _) fun j r j' hrun => ?_
    rw [Resolve.run_addFile] at hrun
    cases hrun
    rfl
  · refine Local.bind (local_ofExcept fun _ _ => trivial) fun root _ => ?_
    exact local_pure trivial

theorem local_openTemplate (l : Limits) (c : Context) (path : String) :
    Local files files' (fun _ => True) (openTemplate (c.under ⟨files, l⟩) path)
      (openTemplate (c.under ⟨files', l⟩) path) := by
  rw [openTemplate_eq, openTemplate_eq]
  exact Local.inFile (Local.bind (local_readFile _ _) fun content _ => local_textTemplate _ _ _) _

/-- The same load among other files. -/
def locality (files files' : Files) (l : Limits) :
    Congruence ⟨files, l⟩ ⟨files', l⟩ Set.univ Set.univ where
  Rel _ _ _ P x y := Local files files' P x y
  read h := local_ofExcept h.returns
  bind := .bind
  inFile _ h := h.inFile _
  note message := by
    refine local_self (Resolve.yields_true _) fun j r j' hrun => ?_
    rw [Resolve.run_note] at hrun
    cases hrun
    rfl
  opening c path :=
    { local_openTemplate l c path with yields := fun _ opened _ _ => ⟨from_univ opened.1, trivial⟩ }
  evaluation u _ _ := { local_charged _ u with yields := fun _ r _ _ => from_univ r.1 }
  wider h := h

theorem local_loadTo (files' : Files) (depth : Nat) (c : Context) (path : String)
    (parameters : Option Token) :
    Local c.files files' (From Set.univ) (loadTo depth c path parameters)
      (loadTo depth { c with files := files' } path parameters) := by
  have hnone {α : Type} {P : α → Prop} : Local c.files files' P .unfinished .unfinished :=
    local_self (Resolve.yields_unfinished P) nofun
  exact (locality c.files files' c.limits).load hnone depth c path (fun t _ => from_univ t)
    Schema.pipelineRoot

/-- **A load is the same where the files are that it asks for.** -/
theorem run_loadTo_congr_files {files' : Files} {depth : Nat} {c : Context} {path : String}
    {parameters : Option Token} {j : Journal} {outcome : Except Diagnostic Pipeline × Journal}
    (hrun : (loadTo depth c path parameters).run.run j = some outcome)
    (hsame : SameAt outcome.2.reads c.files files') :
    (loadTo depth { c with files := files' } path parameters).run.run j = some outcome :=
  (local_loadTo files' depth c path parameters).run j outcome.1 outcome.2 hrun hsame

end PipelineExpansion.Pipeline
