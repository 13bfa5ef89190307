import PipelineExpansion.Proofs.Pipeline.Preparation

/-!
# Preparing twice is preparing once

What `prepare` fills in, it takes for granted when it meets it again: the names that it has handed out
are accepted as if they had been given (`exists_knownNames`), so that every part keeps its name, and
with names, dependencies and pools there, naming finds nothing left to do (`initializeNames_again`). The
checks behind it see the same pipeline both times.

## Main results

* `prepare_again`: preparing a pipeline that has been prepared succeeds and changes nothing.
-/

namespace PipelineExpansion.Pipeline

variable {single single' : Bool} {pool : Option Pool} {used used' : List String}
  {previous : Option String}

/-! ### Names -/

/-- Names that are accepted and of which no two count as one are without fault. -/
theorem checkNames_of_pairwise {names : List String} (what : String) (used : List String)
    (hnames : ∀ n ∈ names, isName n) (hdistinct : names.Pairwise (Text.fold · ≠ Text.fold ·))
    (hfresh : ∀ n ∈ names, Text.fold n ∉ used) :
    ∃ used', checkNames what names used = ([], used') := by
  induction names generalizing used with
  | nil => exact ⟨used, rfl⟩
  | cons name rest ih =>
      obtain ⟨hname, hrest⟩ := List.forall_mem_cons.mp hnames
      obtain ⟨hdiffers, hdistinct⟩ := List.pairwise_cons.mp hdistinct
      obtain ⟨hnew, hfresh⟩ := List.forall_mem_cons.mp hfresh
      have hbehind : ∀ n ∈ rest, Text.fold n ∉ Text.fold name :: used := fun n hn =>
        List.not_mem_cons_of_ne_of_not_mem (hdiffers n hn).symm (hfresh n hn)
      obtain ⟨used', hused⟩ := ih (Text.fold name :: used) hrest hdistinct hbehind
      refine ⟨used', ?_⟩
      rw [checkNames]
      simp [hname, hnew, hused]

/-- The names that have been handed out to parts are known without fault. -/
theorem exists_knownNames {α : Type} {name : α → Option String} {parts parts' : List α}
    {word : String} (what : String) (hword : isName word)
    (hknown : KnownNames (parts.filterMap name) used)
    (hgiven : parts'.map name =
      (handOut word (parts.length = 1) used (parts.map name)).map some) :
    ∃ used', knownNames what (parts'.filterMap name) = .ok used' := by
  rw [← Function.id_comp name, ← List.filterMap_map] at hknown
  have haccepted := handOut_accepted word hword hknown
  rw [List.length_map] at haccepted
  have hnames : parts'.filterMap name = handOut word (parts.length = 1) used (parts.map name) := by
    rw [← Function.id_comp name, ← List.filterMap_map, hgiven, List.filterMap_map]
    exact List.filterMap_some
  obtain ⟨used', hused⟩ := checkNames_of_pairwise what [] haccepted.1 haccepted.2 fun _ _ => nofun
  exact ⟨used', by rw [knownNames, hnames, hused]⟩

/-! ### Jobs -/

/-- Jobs that have names and pools, as far as there are any, stay as they are. -/
theorem nameJobList_again (jobs : List Job) :
    nameJobList single' pool used' (nameJobList single pool used jobs) =
      nameJobList single pool used jobs := by
  induction jobs generalizing used with
  | nil => rfl
  | cons j rest ih =>
      have hpool : ((j.pool <|> pool) <|> pool) = (j.pool <|> pool) := by
        cases j.pool <;> cases pool <;> rfl
      rw [nameJobList_cons, nameJobList_cons, nameFor_some, hpool, ih]

theorem nameJobs_again {jobs jobs' : Option (List Job)} (h : nameJobs pool jobs = .ok jobs') :
    nameJobs pool jobs' = .ok jobs' := by
  cases jobs with
  | none =>
      obtain rfl : none = jobs' := Except.ok.inj h
      rfl
  | some jobs =>
      rw [nameJobs] at h
      obtain ⟨used, hused, hjobs⟩ := bind_eq_ok.mp h
      obtain rfl : _ = jobs' := Except.ok.inj hjobs
      obtain ⟨used', hused'⟩ := exists_knownNames "Job" (by decide) (knownNames_of_eq_ok hused)
        (nameJobList_spec (jobs.length = 1) pool used jobs).1
      rw [nameJobs, hused']
      exact congrArg (Except.ok ∘ some) (nameJobList_again jobs)

/-! ### Stages -/

theorem Stage.prepared_again (s : Stage) (name : String) (previous : Option String)
    (jobs : Option (List Job)) :
    (s.prepared name previous jobs).prepared name previous jobs = s.prepared name previous jobs := by
  cases hneeds : s.dependsOn <;> cases previous <;> simp [prepared, hneeds]

theorem nameStageList_cons_of_ok {s : Stage} {rest rest' : List Stage} {jobs : Option (List Job)}
    (hjobs : nameJobs (s.pool <|> pool) s.jobs = .ok jobs)
    (hrest : nameStageList single pool (nameFor "Stage" single used s.name).2
      (some (nameFor "Stage" single used s.name).1) rest = (rest', .ok ())) :
    nameStageList single pool used previous (s :: rest) =
      (s.prepared (nameFor "Stage" single used s.name).1 previous jobs :: rest', .ok ()) := by
  rw [nameStageList]
  simp only [hjobs, hrest]
  rfl

/-- Stages that have been named are named as they are, whatever names count as used. -/
theorem nameStageList_again {stages stages' : List Stage}
    (h : nameStageList single pool used previous stages = (stages', .ok ())) :
    nameStageList single' pool used' previous stages' = (stages', .ok ()) := by
  induction stages generalizing used previous stages' with
  | nil =>
      obtain rfl : [] = stages' := congrArg Prod.fst h
      rfl
  | cons s rest ih =>
      obtain ⟨jobs, rest', hjobs, hrest, rfl⟩ := nameStageList_cons_ok h
      have hkept := s.prepared_again (nameFor "Stage" single used s.name).1 previous jobs
      rw [nameStageList_cons_of_ok (nameJobs_again hjobs) (ih hrest)]
      exact congrArg (fun kept => (kept :: rest', Except.ok ())) hkept

/-! ### Pipelines -/

theorem initializeNames_again {p p' : Pipeline} (h : p.initializeNames = (p', .ok ())) :
    p'.initializeNames = (p', .ok ()) := by
  obtain ⟨used, stages, hused, hstages, rfl⟩ := initializeNames_eq_ok.mp h
  obtain ⟨used', hused'⟩ := exists_knownNames "Stage" (by decide) (knownNames_of_eq_ok hused)
    (nameStageList_spec hstages).1
  exact initializeNames_eq_ok.mpr ⟨used', stages, hused', nameStageList_again hstages, rfl⟩

/-- **Preparing a pipeline that has been prepared succeeds and changes nothing.** -/
theorem prepare_again {p p' : Pipeline} (h : p.prepare = (p', .ok ())) :
    p'.prepare = (p', .ok ()) := by
  have hnames := (initializeNames_of_prepare h).1
  rw [prepare, hnames] at h
  rw [prepare, initializeNames_again hnames]
  exact h

theorem prepare_again_threeStages :
    threeStages.prepare = (threeStages.prepare.1, .ok ()) ∧
      threeStages.prepare.1.prepare = (threeStages.prepare.1, .ok ()) := by
  have hrun : threeStages.prepare = (threeStages.prepare.1, .ok ()) := rfl
  exact ⟨hrun, prepare_again hrun⟩

end PipelineExpansion.Pipeline
