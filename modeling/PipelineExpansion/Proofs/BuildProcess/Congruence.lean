import PipelineExpansion.Proofs.Template.Journal
import PipelineExpansion.BuildProcess.Load

/-!
# Loading a process twice

A load of a process meets its loader, the files and the limits, at one point only: where a file is loaded.
All the rest puts documents together. So a relation between the steps of two loads that holds where each
loads a file, and is kept when steps follow one another, holds between the two loads as a whole
(`Congruence.load`); it is carried along the recursion of the resolvers here, once for all relations.

A property of a single load is a relation that disregards one of the two steps.

## Main results

* `Congruence.loadResolved`: resolved processes are related.
* `Congruence.load`: processes that are loaded are related.
-/

namespace PipelineExpansion.BuildProcess

open Template (Journal Journaled)

/-! ### Where a load meets its loader -/

section LoadFile

variable {α : Type} (x : Loader) (directory path name : String) (handed : Option Parameters)
  (read : Yaml.Reader α)

/-- Opens a file that has been made known: reads it, and reads a document from its text. -/
def openFile : Journaled α := Journaled.inFile name do
  let content ← Journaled.readFile x.files none name
  let text ← Journaled.ofExcept (documentText x.limits name content handed)
  Journaled.note (name ++ " after mustache replacement:\n" ++ text)
  Journaled.ofExcept (readDocument read text)

/-- A file that is opened is asked for by its name, and nothing is made known. -/
theorem run_openFile (j : Journal) :
    ∃ r notes, (openFile x name handed read).run.run j =
      (r, { j with reads := j.reads ++ [(none, name)], notes }) := by
  simp only [openFile, Journaled.run_inFile, run_bind, Journaled.run_readFile, Journaled.run_ofExcept,
    Journaled.run_note]
  cases x.files.read none name with
  | error fault => exact ⟨_, _, rfl⟩
  | ok content =>
      have hread : (Except.ok content : Except Files.Fault String).mapError (·.diagnostic) = .ok content :=
        rfl
      rw [hread]
      dsimp only
      cases documentText x.limits name content handed with
      | error d => exact ⟨_, _, rfl⟩
      | ok text => exact ⟨_, _, rfl⟩

/-- A file is made known before it is opened, and is not opened if it is one too many. -/
theorem run_loadFile (j : Journal) :
    (loadFile x directory path handed read).run.run j =
      let name := Template.relativeTo directory path
      let known : Journal := { j with files := j.files ++ [name] }
      if 0 < x.limits.maxFiles && x.limits.maxFiles < j.files.length + 1 then
        (.error (tooManyFiles x.limits), known)
      else
        (((openFile x name handed read).run.run known).1.map fun document =>
            ⟨name, (Template.directoryOf name).getD "", document⟩,
          ((openFile x name handed read).run.run known).2) := by
  have hopen : loadFile x directory path handed read = (do
      let name := Template.relativeTo directory path
      let _ ← Journaled.addFile x.limits.maxFiles (tooManyFiles x.limits) name
      let document ← openFile x name handed read
      return ⟨name, (Template.directoryOf name).getD "", document⟩) := rfl
  rw [hopen]
  dsimp only
  rw [run_bind, Journaled.run_addFile]
  by_cases hmax : (0 < x.limits.maxFiles && x.limits.maxFiles < j.files.length + 1) = true
  · rw [if_pos hmax, if_pos hmax]
  · rw [if_neg hmax, if_neg hmax]
    dsimp only
    rw [run_bind]
    generalize (openFile x (Template.relativeTo directory path) handed read).run.run _ = opened
    obtain ⟨_ | _, _⟩ := opened <;> rfl

end LoadFile

/-! ### Congruences -/

/-- A step has nothing to do with files: it makes notes at most. -/
def Fileless {α : Type} (s : Journaled α) : Prop :=
  ∀ j, ∃ r notes, s.run.run j = (r, { j with notes })

theorem fileless_ofExcept {α : Type} (r : Except Diagnostic α) : Fileless (Journaled.ofExcept r) :=
  fun j => ⟨r, j.notes, Journaled.run_ofExcept r j⟩

theorem fileless_note (message : String) : Fileless (Journaled.note message) :=
  fun j => ⟨_, _, Journaled.run_note message j⟩

/-- A relation between steps with one loader and steps with another that loads keep. -/
structure Congruence (x y : Loader) where
  Rel : {α : Type} → Journaled α → Journaled α → Prop
  /-- A step that has nothing to do with files is related to itself. -/
  fileless : ∀ {α : Type} {s : Journaled α}, Fileless s → Rel s s
  bind : ∀ {α β : Type} {s t : Journaled α} {f g : α → Journaled β}, Rel s t →
    (∀ a, Rel (f a) (g a)) → Rel (s >>= f) (t >>= g)
  /-- A file is loaded alike. -/
  loadFile : ∀ {α : Type} (directory path : String) (handed : Option Parameters)
    (read : Yaml.Reader α),
    Rel (BuildProcess.loadFile x directory path handed read)
      (BuildProcess.loadFile y directory path handed read)

namespace Congruence

variable {x y : Loader} (C : Congruence x y) {α β : Type}

theorem pure (a : α) : C.Rel (pure a) (pure a) := C.fileless (fileless_ofExcept (.ok a))

theorem map {s t : Journaled α} (h : C.Rel s t) (f : α → β) : C.Rel (f <$> s) (f <$> t) :=
  C.bind h fun a => C.pure (f a)

variable (directory : String)

theorem resolveVariables (vars : List Variable) :
    C.Rel (BuildProcess.resolveVariables x directory vars)
      (BuildProcess.resolveVariables y directory vars) := by
  induction vars with
  | nil => exact C.pure []
  | cons v rest ih =>
      cases v with
      | value v => exact C.bind ih fun others => C.pure (.value v :: others)
      | template path parameters =>
          exact C.bind (C.loadFile _ _ _ _) fun file => C.bind ih fun others => C.pure _

theorem resolveSteps (steps : List Step) :
    C.Rel (BuildProcess.resolveSteps x directory steps)
      (BuildProcess.resolveSteps y directory steps) := by
  induction steps with
  | nil => exact C.pure []
  | cons s rest ih =>
      cases s with
      | simple s => exact C.bind ih fun others => C.pure (.simple s :: others)
      | group name inner => exact C.bind ih fun others => C.pure (.group name inner :: others)
      | template r =>
          exact C.bind (C.loadFile _ _ _ _) fun file => C.bind ih fun others => C.pure _

theorem resolvePhase (p : Phase) :
    C.Rel (BuildProcess.resolvePhase x directory p) (BuildProcess.resolvePhase y directory p) :=
  C.bind (C.resolveVariables directory p.vars) fun vars =>
    C.bind (C.resolveSteps directory p.steps) fun steps => C.pure { p with vars, steps }

theorem resolveAll (phases : List Phase) :
    C.Rel (BuildProcess.resolveAll x directory phases)
      (BuildProcess.resolveAll y directory phases) := by
  induction phases with
  | nil => exact C.pure []
  | cons p rest ih =>
      exact C.bind (C.resolvePhase directory p) fun p => C.bind ih fun others => C.pure (p :: others)

theorem resolveReference (r : PhasesReference) :
    C.Rel (BuildProcess.resolveReference x directory r)
      (BuildProcess.resolveReference y directory r) := by
  refine C.bind (C.loadFile _ _ _ _) fun file => ?_
  -- What a template lacks needs no resolving, and what is made of the rest has no effect.
  cases file.document.steps <;> cases file.document.phases
  · exact C.bind (C.pure none) fun steps => C.bind (C.pure none) fun phases => by
      cases phases <;> cases steps <;> exact C.pure _
  · exact C.bind (C.pure none) fun steps => C.bind (C.map (C.resolveAll _ _) some) fun phases => by
      cases phases <;> cases steps <;> exact C.pure _
  · exact C.bind (C.map (C.resolveSteps _ _) some) fun steps => C.bind (C.pure none) fun phases => by
      cases phases <;> cases steps <;> exact C.pure _
  · exact C.bind (C.map (C.resolveSteps _ _) some) fun steps =>
      C.bind (C.map (C.resolveAll _ _) some) fun phases => by
        cases phases <;> cases steps <;> exact C.pure _

theorem resolvePhases (entries : List PhaseEntry) :
    C.Rel (BuildProcess.resolvePhases x directory entries)
      (BuildProcess.resolvePhases y directory entries) := by
  induction entries with
  | nil => exact C.pure []
  | cons e rest ih =>
      cases e with
      | phase p =>
          exact C.bind (C.resolvePhase directory p) fun p => C.bind ih fun others => C.pure _
      | template r =>
          exact C.bind (C.resolveReference directory r) fun own =>
            C.bind ih fun others => C.pure (own ++ others)

theorem resolve (p : BuildProcess) :
    C.Rel (BuildProcess.resolve x directory p) (BuildProcess.resolve y directory p) := by
  unfold BuildProcess.resolve
  split
  · refine C.bind (C.loadFile _ _ _ _) fun file => ?_
    dsimp only
    split
    · exact C.bind (C.resolvePhases file.directory _) fun phases => C.pure _
    · exact C.bind (C.resolveSteps file.directory _) fun steps => C.pure _
    · exact C.pure _
  · split
    · exact C.bind (C.resolvePhases directory _) fun phases => C.pure _
    · cases p.vars <;> cases p.steps
      · exact C.bind (C.pure none) fun _ => C.bind (C.pure none) fun _ => C.pure _
      · exact C.bind (C.pure none) fun _ => C.bind (C.map (C.resolveSteps _ _) some) fun _ => C.pure _
      · exact C.bind (C.map (C.resolveVariables _ _) some) fun _ => C.bind (C.pure none) fun _ => C.pure _
      · exact C.bind (C.map (C.resolveVariables _ _) some) fun _ =>
          C.bind (C.map (C.resolveSteps _ _) some) fun _ => C.pure _

variable (path : String) (handed : Option Parameters)

/-- **Resolved processes are related.** -/
theorem loadResolved :
    C.Rel (BuildProcess.loadResolved x directory path handed)
      (BuildProcess.loadResolved y directory path handed) :=
  C.bind (C.loadFile _ _ _ _) fun file =>
    C.bind (C.resolve file.directory file.document) fun p => C.pure (file.name, p)

/-- **Processes that are loaded are related.** -/
theorem load :
    C.Rel (BuildProcess.load x directory path handed) (BuildProcess.load y directory path handed) :=
  C.bind (C.loadResolved directory path handed) fun _ =>
    C.bind (C.fileless (fileless_ofExcept _)) fun _ =>
      C.bind (C.fileless (fileless_note _)) fun _ => C.pure _

end Congruence
end PipelineExpansion.BuildProcess
