import PipelineExpansion.Proofs.BuildProcess.Congruence
import PipelineExpansion.Proofs.Pipeline.ReferenceChain

/-!
# Relative paths stay inside

In both dialects a reference is made a path seen from a directory before a file is asked for: in a build
process every reference, and in a pipeline every one without an alias. Such a path is normal, so it leads
nowhere but below the root of the repository. Nothing need be known of the references for that, nor of the
documents that they stand in.

## Main results

* `asksNormally`: to ask for normal paths only is a congruence of loads of processes.
* `relativeTo_staysInside`: paths seen from directories, and what is asked for by following references.
-/

namespace PipelineExpansion

open Template (Context Journal Journaled Normal StaysBelow Token relativeTo)

/-! ### Build processes -/

namespace BuildProcess

open Template.Journaled

/-- A step asks for files of the first repository only, at normal paths. -/
def AsksNormally {α : Type} (s : Journaled α) : Prop :=
  ∀ j r j', s.run.run j = (r, j') → ∃ places, j'.reads = j.reads ++ places ∧
    ∀ place ∈ places, place.1 = none ∧ Normal place.2

variable {α β : Type}

theorem asksNormally_of_fileless {s : Journaled α} (h : Fileless s) : AsksNormally s := by
  intro j r j' hrun
  obtain ⟨_, notes, hsame⟩ := h j
  cases hsame.symm.trans hrun
  exact ⟨[], (List.append_nil _).symm, List.forall_mem_nil _⟩

theorem AsksNormally.bind {s : Journaled α} {f : α → Journaled β} (h : AsksNormally s)
    (h' : ∀ a, AsksNormally (f a)) : AsksNormally (s >>= f) := by
  intro j r j' hrun
  rw [run_bind] at hrun
  rcases hs : s.run.run j with ⟨d | a, j₁⟩ <;> rw [hs] at hrun
  · cases hrun
    exact h j _ _ hs
  · obtain ⟨places, hreads, hplaces⟩ := h j _ _ hs
    obtain ⟨more, hmore, hnormal⟩ := h' a j₁ r j' hrun
    refine ⟨places ++ more, ?_, List.forall_mem_append.mpr ⟨hplaces, hnormal⟩⟩
    rw [hmore, hreads, List.append_assoc]

/-- **A file of a process is asked for at a normal path.** -/
theorem asksNormally_loadFile (x : Loader) (directory path : String) (handed : Option Parameters)
    (read : Yaml.Reader α) : AsksNormally (loadFile x directory path handed read) := by
  intro j r j' hrun
  rw [run_loadFile] at hrun
  dsimp only at hrun
  split at hrun
  · cases hrun
    exact ⟨[], (List.append_nil _).symm, List.forall_mem_nil _⟩
  · obtain ⟨opened, notes, hopen⟩ := run_openFile x (relativeTo directory path) handed read
      { j with files := j.files ++ [relativeTo directory path] }
    rw [hopen] at hrun
    cases hrun
    exact ⟨_, rfl, List.forall_mem_singleton.mpr ⟨rfl, Template.normal_relativeTo directory path⟩⟩

/-- To ask for normal paths only is a congruence. -/
def asksNormally (x : Loader) : Congruence x x where
  Rel s _ := AsksNormally s
  fileless := asksNormally_of_fileless
  bind := .bind
  loadFile := asksNormally_loadFile x

end BuildProcess

/-! ### Both dialects -/

/-- **Paths seen from directories are normal and compose, and stay inside.** The path that a chain of
references without an alias asks for, in a pipeline or in a build process, leads nowhere but below the root
of the repository. -/
theorem relativeTo_staysInside :
    (∀ a b : String, Normal (relativeTo a b) ∧ (relativeTo a b).toList.head? ≠ some '/' ∧
      (relativeTo a b).toList.getLast? ≠ some '/') ∧
    (∀ path : String, relativeTo "" path = path ↔ Normal path) ∧
    (∀ a b : String, relativeTo "" (relativeTo a b) = relativeTo a b) ∧
    (∀ a b c : String, relativeTo (relativeTo a b) c = relativeTo a (b ++ "/" ++ c)) ∧
    (∀ (c c' : Context) (references : List String), Pipeline.Follows c references c' →
      ∀ reference : String, '@' ∉ reference.toList →
      ∀ (n : Nat) (parameters : Option Token) (definition : String) (j j' : Journal)
        (outcome : Except Diagnostic Pipeline.Loaded),
      (Pipeline.readTemplate (Pipeline.references n) c' reference parameters definition).run.run j =
        some (outcome, j') →
      ∃ path, path = relativeTo (c.directory.getD ".")
          (Text.join "/../" (references ++ [reference])) ∧
        j.reads ++ [(c.repository, path)] <+: j'.reads ∧ StaysBelow path) ∧
    (∀ (x : BuildProcess.Loader) (directory path : String) (handed : Option BuildProcess.Parameters)
        (j : Journal) (outcome : Except Diagnostic BuildProcess),
      (BuildProcess.load x directory path handed).run.run {} = (outcome, j) →
      ∀ place ∈ j.reads, place.1 = none ∧ Normal place.2 ∧ StaysBelow place.2) := by
  refine ⟨fun a b => ?_, fun path => Template.relativeTo_empty_eq_iff, fun a b => ?_,
    Template.relativeTo_relativeTo, ?_, ?_⟩
  · have hnormal := Template.normal_relativeTo a b
    exact ⟨hnormal, hnormal.head?_ne, hnormal.getLast?_ne⟩
  · exact (Template.normal_relativeTo a b).relativeTo_empty
  · intro c c' references hfollows reference halias n parameters definition j j' outcome hrun
    exact ⟨_, rfl, Pipeline.asked_of_follows hfollows halias hrun,
      (Template.normal_relativeTo _ _).staysBelow⟩
  · intro x directory path handed j outcome hrun place hplace
    obtain ⟨places, hreads, hplaces⟩ :=
      (BuildProcess.asksNormally x).load directory path handed {} outcome j hrun
    rw [hreads, List.nil_append] at hplace
    obtain ⟨hfirst, hnormal⟩ := hplaces place hplace
    exact ⟨hfirst, hnormal, hnormal.staysBelow⟩

/-- Files that refer to others by ways that lead up too often. -/
def climbingFiles : Files := .inMemory
  [⟨none, "ci/steps.yml", "steps:\n- template: ../../../lib/make.yml\n"⟩,
   ⟨none, "lib/make.yml", "steps:\n- script: make\n"⟩]

/-- The context of a document in a directory beside theirs. -/
def climbing : Context where
  files := climbingFiles
  schema := .standard
  directory := some "ci"

theorem relativeTo_staysInside_climbing :
    (∃ c', Pipeline.Follows climbing ["./steps.yml"] c' ∧ ∃ outcome j',
      (Pipeline.readTemplate (Pipeline.references 1) c' "../../../lib/make.yml" none
        Template.Schema.stepRoot).run.run {} = some (outcome, j') ∧
      [(none, "lib/make.yml")] <+: j'.reads ∧ StaysBelow "lib/make.yml") ∧
    ∃ outcome j, (BuildProcess.load ⟨climbingFiles, {}⟩ "ci" "../../ci//steps.yml" none).run.run {} =
      (outcome, j) ∧ (∃ place ∈ j.reads, place.2 = "lib/make.yml") ∧
      ∀ place ∈ j.reads, StaysBelow place.2 := by
  obtain ⟨-, -, -, -, hchain, hprocess⟩ := relativeTo_staysInside
  constructor
  · have hfirst : ((Pipeline.readTemplate (Pipeline.references 1) climbing "./steps.yml" none
        Template.Schema.stepRoot).run.run {}).any (·.1.isOk) = true := by decide +kernel
    have hsecond : ((Pipeline.readTemplate (Pipeline.references 1)
        (climbing.child "ci/steps.yml" none) "../../../lib/make.yml" none
        Template.Schema.stepRoot).run.run {}).isSome = true := by decide +kernel
    generalize hread : (Pipeline.readTemplate (Pipeline.references 1) climbing "./steps.yml" none
      Template.Schema.stepRoot).run.run {} = run at hfirst
    obtain _ | ⟨_ | loaded, j⟩ := run
    · cases hfirst
    · cases hfirst
    · have hlocate : climbing.locate "./steps.yml" = .ok ("ci/steps.yml", none) := by decide +kernel
      have hcontext := Pipeline.context_of_readTemplate hlocate hread
      have hfollows : Pipeline.Follows climbing ["./steps.yml"] loaded.context :=
        .next .start (by decide) hread (.inl rfl)
      obtain ⟨⟨outcome, j'⟩, hrun⟩ := Option.isSome_iff_exists.mp hsecond
      rw [← hcontext] at hrun
      obtain ⟨path, hpath, hreads, hbelow⟩ :=
        hchain _ _ _ hfollows "../../../lib/make.yml" (by decide) _ _ _ _ _ _ hrun
      have hlib : path = "lib/make.yml" := by
        rw [hpath]
        decide +kernel
      rw [hlib] at hreads hbelow
      exact ⟨_, hfollows, outcome, j', hrun, hreads, hbelow⟩
  · have hlib : (none, "lib/make.yml") ∈ ((BuildProcess.load ⟨climbingFiles, {}⟩ "ci"
        "../../ci//steps.yml" none).run.run {}).2.reads := by decide +kernel
    generalize hrun :
      (BuildProcess.load ⟨climbingFiles, {}⟩ "ci" "../../ci//steps.yml" none).run.run {} = run at hlib
    obtain ⟨outcome, j⟩ := run
    exact ⟨outcome, j, rfl, ⟨_, hlib, rfl⟩,
      fun place hplace => (hprocess _ _ _ _ _ _ hrun place hplace).2.2⟩

end PipelineExpansion
