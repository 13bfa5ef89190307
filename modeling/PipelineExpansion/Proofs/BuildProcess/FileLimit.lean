import PipelineExpansion.Proofs.BuildProcess.Congruence

/-!
# The limit on files is exact

A load counts each file before it opens it, on every way that leads to one: for the document itself, for a
template of it, of phases, of variables or of steps. So it asks for as many files as it has counted, and
the load under a limit is the load without one up to the first file that is one too many, where it fails.

The comparison is between a step that returns without a limit and the same step under one (`Limited`).
Where the files known afterwards keep to the limit the two do the same; where they do not, though they did
before, the second fails as soon as the limit is reached. The first of two such steps decides in which way
the second is compared, and so to be limited is a congruence of loads.

## Main results

* `limited`: to be limited is a congruence of loads.
* `load_limited`: a load with as many files as it needs, and a load with fewer.
-/

namespace PipelineExpansion.BuildProcess

open Template (Journal Journaled)
open Template.Journaled

/-- The same loader with another limit on the number of files; zero stands for none. -/
def Loader.withMaxFiles (x : Loader) (N : Nat) : Loader :=
  { x with limits := { x.limits with maxFiles := N } }

/-- Between two journals every file that was made known was asked for. -/
structure Counted (j j' : Journal) : Prop where
  reads : j.reads <+: j'.reads
  length : j'.reads.length + j.files.length = j.reads.length + j'.files.length

variable {α β : Type} {N : Nat} {d : Diagnostic} {j j₁ j' : Journal}

theorem Counted.refl (j : Journal) : Counted j j := ⟨List.prefix_refl _, rfl⟩

theorem Counted.trans (h : Counted j j₁) (h' : Counted j₁ j') : Counted j j' where
  reads := h.reads.trans h'.reads
  length := by
    have := h.length
    have := h'.length
    omega

/-- No file is forgotten. -/
theorem Counted.files_le (h : Counted j j') : j.files.length ≤ j'.files.length := by
  have := h.reads.length_le
  have := h.length
  omega

/-- A step that returns without a limit, and the same step where `N` files may be known. -/
structure Limited (N : Nat) (d : Diagnostic) (s t : Journaled α) : Prop where
  counted : ∀ j a j', s.run.run j = (.ok a, j') → Counted j j'
  /-- Where the limit is kept to, it makes no difference. -/
  within : ∀ j a j', s.run.run j = (.ok a, j') → j'.files.length ≤ N → t.run.run j = (.ok a, j')
  /-- Where it is not, the step fails when as many files have been asked for as may be known. -/
  beyond : ∀ j a j', s.run.run j = (.ok a, j') → j.files.length ≤ N → N < j'.files.length →
    ∃ j₁, t.run.run j = (.error d, j₁) ∧ j₁.reads <+: j'.reads ∧
      j₁.reads.length + j.files.length = j.reads.length + N

/-- A step that has nothing to do with files does the same under any limit. -/
theorem limited_of_fileless {s : Journaled α} (h : Fileless s) : Limited N d s s where
  counted j a j' hrun := by
    obtain ⟨r, notes, hsame⟩ := h j
    cases hsame.symm.trans hrun
    exact ⟨List.prefix_refl _, rfl⟩
  within j a j' hrun _ := hrun
  beyond j a j' hrun hroom hfull := by
    obtain ⟨r, notes, hsame⟩ := h j
    cases hsame.symm.trans hrun
    exact absurd hroom (Nat.not_le_of_gt hfull)

theorem Limited.bind {s t : Journaled α} {f g : α → Journaled β} (h : Limited N d s t)
    (h' : ∀ a, Limited N d (f a) (g a)) : Limited N d (s >>= f) (t >>= g) where
  counted j b j' hrun := by
    obtain ⟨a, j₁, hs, hf⟩ := run_bind_eq_ok.mp hrun
    exact (h.counted j a j₁ hs).trans ((h' a).counted j₁ b j' hf)
  within j b j' hrun hroom := by
    obtain ⟨a, j₁, hs, hf⟩ := run_bind_eq_ok.mp hrun
    have hrest := (h' a).counted j₁ b j' hf
    refine run_bind_eq_ok.mpr ⟨a, j₁, ?_, (h' a).within j₁ b j' hf hroom⟩
    exact h.within j a j₁ hs (Nat.le_trans hrest.files_le hroom)
  beyond j b j' hrun hroom hfull := by
    obtain ⟨a, j₁, hs, hf⟩ := run_bind_eq_ok.mp hrun
    rcases Nat.lt_or_ge N j₁.files.length with hearly | hlate
    · -- The first step fails already, and what it has asked for the whole step asks for, too.
      obtain ⟨j₂, ht, hreads, hlength⟩ := h.beyond j a j₁ hs hroom hearly
      refine ⟨j₂, ?_, hreads.trans ((h' a).counted j₁ b j' hf).reads, hlength⟩
      rw [run_bind, ht]
    · obtain ⟨j₂, hg, hreads, hlength⟩ := (h' a).beyond j₁ b j' hf hlate hfull
      refine ⟨j₂, ?_, hreads, ?_⟩
      · rw [run_bind, h.within j a j₁ hs hlate]
        exact hg
      · have := (h.counted j a j₁ hs).length
        omega

/-- What a load without a limit on files finds when it loads one. -/
theorem run_loadFile_eq_ok {x : Loader} {directory path : String} {handed : Option Parameters}
    {read : Yaml.Reader α} {file : LoadedFile α}
    (h : (loadFile (x.withMaxFiles 0) directory path handed read).run.run j = (.ok file, j')) :
    j'.reads = j.reads ++ [(none, file.name)] ∧ j'.files = j.files ++ [file.name] := by
  rw [run_loadFile] at h
  obtain ⟨r, notes, hopen⟩ := run_openFile (x.withMaxFiles 0) (Template.relativeTo directory path)
    handed read { j with files := j.files ++ [Template.relativeTo directory path] }
  rw [if_neg (by simp [Loader.withMaxFiles]), hopen] at h
  obtain ⟨hr, rfl⟩ := Prod.mk.inj h
  cases r with
  | error d => cases hr
  | ok document =>
      cases hr
      exact ⟨rfl, rfl⟩

/-- **A file is loaded alike, unless it is one too many.** -/
theorem limited_loadFile {x : Loader} (hN : 0 < N) (directory path : String)
    (handed : Option Parameters) (read : Yaml.Reader α) :
    Limited N (tooManyFiles (x.withMaxFiles N).limits)
      (loadFile (x.withMaxFiles 0) directory path handed read)
      (loadFile (x.withMaxFiles N) directory path handed read) where
  counted j file j' hrun := by
    obtain ⟨hreads, hfiles⟩ := run_loadFile_eq_ok hrun
    refine ⟨by rw [hreads]; exact List.prefix_append _ _, ?_⟩
    rw [hreads, hfiles, List.length_append, List.length_append]
    simp only [List.length_singleton]
    omega
  within j file j' hrun hroom := by
    obtain ⟨-, hfiles⟩ := run_loadFile_eq_ok hrun
    rw [hfiles, List.length_append, List.length_singleton] at hroom
    have hmax : ¬ (0 < N && N < j.files.length + 1) = true := by
      simp only [Bool.and_eq_true, decide_eq_true_iff]
      omega
    rw [run_loadFile, if_neg (by simp [Loader.withMaxFiles])] at hrun
    exact (run_loadFile ..).trans ((if_neg hmax).trans hrun)
  beyond j file j' hrun hroom hfull := by
    obtain ⟨hreads, hfiles⟩ := run_loadFile_eq_ok hrun
    rw [hfiles, List.length_append, List.length_singleton] at hfull
    have hmax : (0 < N && N < j.files.length + 1) = true := by
      simp only [Bool.and_eq_true, decide_eq_true_iff]
      exact ⟨hN, hfull⟩
    refine ⟨_, (run_loadFile ..).trans (if_pos hmax), ?_, ?_⟩
    · rw [hreads]
      exact List.prefix_append _ _
    · rw [Nat.le_antisymm hroom (Nat.le_of_lt_succ hfull)]

/-- To be limited is a congruence of loads. -/
def limited (x : Loader) (hN : 0 < N) : Congruence (x.withMaxFiles 0) (x.withMaxFiles N) where
  Rel s t := Limited N (tooManyFiles (x.withMaxFiles N).limits) s t
  fileless := limited_of_fileless
  bind := .bind
  loadFile := limited_loadFile hN

/-- **The limit on files is exact.** Where a load without a limit returns, a load under a limit does the
same if no more files are asked for than the limit, and otherwise fails with the limit once it has asked for
as many of the same files. -/
theorem load_limited {x : Loader} {directory path : String} {handed : Option Parameters}
    {p : BuildProcess} {j : Journal}
    (h : (load (x.withMaxFiles 0) directory path handed).run.run {} = (.ok p, j)) (hN : 0 < N) :
    (j.reads.length ≤ N →
      (load (x.withMaxFiles N) directory path handed).run.run {} = (.ok p, j)) ∧
    (N < j.reads.length → ∃ d j', (load (x.withMaxFiles N) directory path handed).run.run {} =
        (.error d, j') ∧ d.kind = .limit ∧
      d.message = "A YAML definition may not exceed " ++ toString N ++ " file references." ∧
      j'.reads = j.reads.take N) := by
  have hlimited := (limited x hN).load directory path handed
  have hcounted := (hlimited.counted {} p j h).length
  simp only [List.length_nil, Nat.add_zero, Nat.zero_add] at hcounted
  rw [hcounted]
  refine ⟨fun hroom => hlimited.within {} p j h hroom, fun hfull => ?_⟩
  obtain ⟨j', hrun, hreads, hlength⟩ := hlimited.beyond {} p j h (Nat.zero_le _) hfull
  simp only [List.length_nil, Nat.add_zero, Nat.zero_add] at hlength
  exact ⟨_, j', hrun, rfl, rfl, hlength ▸ List.prefix_iff_eq_take.mp hreads⟩

/-- Files of a process with a template of phases, which has one of variables and one of steps twice. -/
def nestedFiles : Files := .inMemory
  [⟨none, "build.yml", "phases:\n- template: ci/phases.yml\n"⟩,
   ⟨none, "ci/phases.yml", "phases:\n- phase: a\n  variables:\n  - template: vars.yml\n  steps:\n"
      ++ "  - template: steps.yml\n  - template: steps.yml\n"⟩,
   ⟨none, "ci/vars.yml", "variables:\n  v: '1'\n"⟩,
   ⟨none, "ci/steps.yml", "steps:\n- script: make\n"⟩]

/-- The loader of these files. -/
def nested : Loader := { files := nestedFiles }

theorem load_limited_nested :
    ∃ p j, (load (nested.withMaxFiles 0) "" "build.yml" none).run.run {} = (.ok p, j) ∧
      j.reads.length = 5 ∧
      (load (nested.withMaxFiles 5) "" "build.yml" none).run.run {} = (.ok p, j) ∧
      ∃ d j', (load (nested.withMaxFiles 4) "" "build.yml" none).run.run {} = (.error d, j') ∧
        d.kind = .limit ∧ j'.reads = j.reads.take 4 := by
  have hlength : ((load (nested.withMaxFiles 0) "" "build.yml" none).run.run {}).1.isOk = true ∧
      ((load (nested.withMaxFiles 0) "" "build.yml" none).run.run {}).2.reads.length = 5 := by
    decide +kernel
  generalize hrun : (load (nested.withMaxFiles 0) "" "build.yml" none).run.run {} = run at hlength
  obtain ⟨_ | p, j⟩ := run
  · cases hlength.1
  · have hreads : j.reads.length = 5 := hlength.2
    obtain ⟨hwithin, -⟩ := load_limited hrun (N := 5) (by decide)
    obtain ⟨-, hbeyond⟩ := load_limited hrun (N := 4) (by decide)
    obtain ⟨d, j', hfails, hkind, -, htake⟩ := hbeyond (by rw [hreads]; decide)
    exact ⟨p, j, rfl, hreads, hwithin (Nat.le_of_eq hreads), d, j', hfails, hkind, htake⟩

end PipelineExpansion.BuildProcess
