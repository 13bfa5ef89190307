import PipelineExpansion.Proofs.Pipeline.Root
import PipelineExpansion.Proofs.Pipeline.TokenForm
import PipelineExpansion.Proofs.Template.DistinctNames

/-!
# What a root is composed of

The job or the stage that is made of the left-over entries of a root knows what it reads, so a root with
steps or jobs is read as a whole or refused. Without them nobody looks at what is left over: it is
dropped. Stages beside steps or jobs are composed, and then give way to the one stage that those make.

## Main results

* `composed_of_run`: with steps or jobs all entries are interpreted, and what is composed from steps,
  from jobs, or from stages that stand alone, is what the pipeline consists of.
* `retries_isDropped`: a key that nobody interprets.
* `stage_isDropped`: a stage that does not come through.
-/

namespace PipelineExpansion.Pipeline

open Template (Context DistinctNames Entry Journal Resolve Token)
open Template.Resolve

variable {refs : References} {c : Context} {d : Draft} {e : Entry} {entries : List Entry}
  {o : Template.Origin} {j j' : Journal}

/-! ### Keys of jobs and of stages -/

/-- The keys that a job reads. -/
def jobKeys : List String :=
  ["job", "deployment", "displayName", "dependsOn", "condition", "strategy", "continueOnError",
    "container", "timeoutInMinutes", "cancelTimeoutInMinutes", "variables", "services", "steps",
    "templateContext", "pool", "environment", "uses", "workspace"]

/-- The keys that a stage reads. -/
def stageKeys : List String :=
  ["stage", "displayName", "dependsOn", "condition", "variables", "jobs", "pool", "lockBehavior",
    "templateContext"]

/-- A job refuses a key that it does not know. -/
theorem Job.ensures_known (job : Job) (e : Entry) :
    Ensures (job.readPlain e) fun _ => e.1.name ∈ jobKeys := by
  unfold Job.readPlain
  dsimp only
  split
  case h_11 => exact ensures_ok (by simp [jobKeys, *])
  case h_10 =>
    refine ensures_bind_of_forall fun _ => ensures_bind_of_forall fun _ => ensures_pure ?_
    simp [jobKeys, *]
  case h_16 => exact ensures_error _ _
  all_goals exact ensures_bind_of_forall fun _ => ensures_pure (by simp [jobKeys, *])

theorem JobDraft.yields_known (d : JobDraft) (e : Entry) :
    Yields (d.read refs c e) fun _ => e.1.name ∈ jobKeys := by
  unfold JobDraft.read
  split
  case h_1 => exact yields_pure (by simp [jobKeys, *])
  case h_4 => exact (yields_ofExcept (d.job.ensures_known e)).bind fun _ h => yields_pure h
  all_goals exact yields_bind_of_forall fun _ => yields_pure (by simp [jobKeys, *])

/-- A stage refuses a key that it does not know. -/
theorem Stage.ensures_known (s : Stage) (e : Entry) :
    Ensures (s.readPlain e) fun _ => e.1.name ∈ stageKeys := by
  unfold Stage.readPlain
  dsimp only
  split
  case h_7 => exact ensures_ok (by simp [stageKeys, *])
  case h_8 => exact ensures_error _ _
  all_goals exact ensures_bind_of_forall fun _ => ensures_pure (by simp [stageKeys, *])

theorem Stage.yields_known (s : Stage) (e : Entry) :
    Yields (s.read refs c e) fun _ => e.1.name ∈ stageKeys := by
  unfold Stage.read
  split
  case h_3 => exact yields_ofExcept (s.ensures_known e)
  all_goals exact yields_bind_of_forall fun _ => yields_pure (by simp [stageKeys, *])

/-! ### What has been read under a key -/

/-- A field that entries of other names leave as it is holds what was read under its name. -/
theorem exists_read_of_mem {σ β : Type} {step : σ → Entry → Resolve σ} {s s' : σ} (field : σ → β)
    (hnames : DistinctNames entries) (he : e ∈ entries)
    (hkeep : ∀ s, ∀ other ∈ entries, other.1.name ≠ e.1.name →
      Yields (step s other) fun s' => field s' = field s)
    (hrun : (entries.foldlM step s).run.run j = some (.ok s', j')) :
    ∃ s₀ s₁ j₀ j₁, (step s₀ e).run.run j₀ = some (.ok s₁, j₁) ∧ field s' = field s₁ := by
  induction entries generalizing s j with
  | nil => cases he
  | cons first rest ih =>
      rw [DistinctNames, List.map_cons, List.nodup_cons] at hnames
      rw [List.foldlM_cons, Resolve.run_bind_eq_ok] at hrun
      obtain ⟨s₁, j₁, hfirst, hrest⟩ := hrun
      have hkeep' (s : σ) (other : Entry) (hmem : other ∈ rest) :=
        hkeep s other (List.mem_cons_of_mem _ hmem)
      rcases List.mem_cons.mp he with rfl | he
      · have hother : ∀ s, ∀ other ∈ rest, field s = field s₁ →
            Yields (step s other) fun s' => field s' = field s₁ := by
          intro s other hmem hs
          have hname : other.1.name ≠ e.1.name := fun heq =>
            hnames.1 (List.mem_map.mpr ⟨other, hmem, heq⟩)
          exact hs ▸ hkeep' s other hmem hname
        exact ⟨s, s₁, j, j₁, hfirst, yields_foldlM_of_mem hother rfl _ _ _ hrest⟩
      · exact ih hnames.2 he hkeep' hrest

/-- Every entry that was read could be read. -/
theorem exists_read {σ : Type} {step : σ → Entry → Resolve σ} {s s' : σ}
    (hnames : DistinctNames entries) (he : e ∈ entries)
    (hrun : (entries.foldlM step s).run.run j = some (.ok s', j')) :
    ∃ s₀ s₁ j₀ j₁, (step s₀ e).run.run j₀ = some (.ok s₁, j₁) := by
  obtain ⟨s₀, s₁, j₀, j₁, hread, -⟩ :=
    exists_read_of_mem (fun _ => ()) hnames he (fun _ _ _ _ _ _ _ _ => rfl) hrun
  exact ⟨s₀, s₁, j₀, j₁, hread⟩

/-- A step returns a value from some journal. -/
def CanReturn {α : Type} (step : Resolve α) (a : α) : Prop :=
  ∃ j j', step.run.run j = some (.ok a, j')

/-- The stages are those that were composed from the entry for them. -/
theorem ownDraft_stages {d : Draft} {o : Template.Origin} {t : Token}
    (hnames : DistinctNames entries) (he : (⟨o, "stages"⟩, t) ∈ entries)
    (hrun : (ownDraft refs c entries).run.run j = some (.ok d, j')) :
    ∃ stages, CanReturn (stageList refs c t) stages ∧ d.pipeline.stages = some stages := by
  have hown : (⟨o, "stages"⟩, t) ∈ entries.filter isOwn :=
    List.mem_filter.mpr ⟨he, decide_eq_true (by decide : "stages" ∈ ownKeys)⟩
  have hsub : DistinctNames (entries.filter isOwn) :=
    hnames.sublist (List.filter_sublist.map _)
  obtain ⟨d₀, d₁, j₀, j₁, hread, hstages⟩ := exists_read_of_mem (·.pipeline.stages) hsub hown
    (fun d e he hname j d' j' hrun =>
      (Draft.yields_read (List.mem_filter.mp he).2 d j d' j' hrun).2.2.2 hname) hrun
  have hcompose : Draft.read refs c d₀ (⟨o, "stages"⟩, t) = stageList refs c t >>= fun stages =>
      pure { d₀ with pipeline := { d₀.pipeline with stages := some stages } } := rfl
  rw [hcompose, Resolve.run_bind_eq_ok] at hread
  obtain ⟨stages, j₂, hrun, hpure⟩ := hread
  cases hpure
  exact ⟨stages, ⟨_, _, hrun⟩, hstages⟩

/-- Entries of other names leave the steps of a job as they are. -/
theorem JobDraft.yields_steps (d : JobDraft) (h : e.1.name ≠ "steps") :
    Yields (d.read refs c e) fun d' => d'.job.steps = d.job.steps := by
  have hplain : Ensures (d.job.readPlain e) fun job => job.steps = d.job.steps := by
    unfold Job.readPlain
    dsimp only
    split
    case h_10 => exact ensures_bind_of_forall fun _ => ensures_bind_of_forall fun _ => ensures_pure rfl
    case h_11 => exact ensures_ok rfl
    case h_16 => exact ensures_error _ _
    all_goals exact ensures_bind_of_forall fun _ => ensures_pure rfl
  unfold JobDraft.read
  split
  case h_1 => exact yields_pure rfl
  case h_2 => exact yields_bind_of_forall fun _ => yields_pure rfl
  case h_3 => exact absurd ‹_› h
  case h_4 => exact (yields_ofExcept hplain).bind fun _ h => yields_pure h

/-- Entries of other names leave the jobs of a stage as they are. -/
theorem Stage.yields_jobs (s : Stage) (h : e.1.name ≠ "jobs") :
    Yields (s.read refs c e) fun s' => s'.jobs = s.jobs := by
  have hplain : Ensures (s.readPlain e) fun s' => s'.jobs = s.jobs := by
    unfold Stage.readPlain
    dsimp only
    split
    case h_7 => exact ensures_ok rfl
    case h_8 => exact ensures_error _ _
    all_goals exact ensures_bind_of_forall fun _ => ensures_pure rfl
  unfold Stage.read
  split
  case h_1 => exact yields_bind_of_forall fun _ => yields_pure rfl
  case h_2 => exact absurd ‹_› h
  case h_3 => exact yields_ofExcept hplain

theorem JobDraft.yields_finish (d : JobDraft) :
    Yields (d.finish refs c) fun job => job.steps = d.job.steps := by
  unfold JobDraft.finish
  split
  · exact yields_pure rfl
  · exact yields_bind_of_forall fun _ => yields_pure rfl

/-- An implicit job knows all of its keys and has the steps that were composed for it. -/
theorem run_implicitJob {job : Job} (hnames : DistinctNames entries)
    (hrun : (Job.ofToken? refs c (.mapping o entries) true).run.run j = some (.ok job, j')) :
    (∀ e ∈ entries, e.1.name ∈ jobKeys) ∧
      ∀ e ∈ entries, e.1.name = "steps" →
        ∃ steps, CanReturn (stepList refs c e.2) steps ∧ job.steps = some steps := by
  rw [Job.ofToken?_implicit, Resolve.run_bind_eq_ok] at hrun
  obtain ⟨d, j₁, hread, hfinish⟩ := hrun
  constructor
  · intro e he
    obtain ⟨d₀, d₁, j₀, j₁, hentry⟩ := exists_read hnames he hread
    exact d₀.yields_known e _ _ _ hentry
  · rintro ⟨⟨o', name⟩, t⟩ he rfl
    obtain ⟨d₀, d₁, j₀, j₁, hentry, hsteps⟩ := exists_read_of_mem (·.job.steps) hnames he
      (fun d _ _ hother => d.yields_steps hother) hread
    have hcompose : JobDraft.read refs c d₀ (⟨o', "steps"⟩, t) = stepList refs c t >>= fun steps =>
        pure { d₀ with job := { d₀.job with steps := some steps } } := rfl
    rw [hcompose, Resolve.run_bind_eq_ok] at hentry
    obtain ⟨steps, j₂, hrun, hpure⟩ := hentry
    cases hpure
    exact ⟨steps, ⟨_, _, hrun⟩, (d.yields_finish _ _ _ hfinish).trans hsteps⟩

/-- An implicit stage knows all of its keys and has the jobs that were composed for it. -/
theorem run_implicitStage {s : Stage} (hnames : DistinctNames entries)
    (hrun : (Stage.ofToken? refs c (.mapping o entries) true).run.run j = some (.ok s, j')) :
    (∀ e ∈ entries, e.1.name ∈ stageKeys) ∧
      ∀ e ∈ entries, e.1.name = "jobs" →
        ∃ jobs, CanReturn (jobList refs c e.2) jobs ∧ s.jobs = some jobs := by
  rw [Stage.ofToken?_implicit] at hrun
  constructor
  · intro e he
    obtain ⟨s₀, s₁, j₀, j₁, hentry⟩ := exists_read hnames he hrun
    exact s₀.yields_known e _ _ _ hentry
  · rintro ⟨⟨o', name⟩, t⟩ he rfl
    obtain ⟨s₀, s₁, j₀, j₁, hentry, hjobs⟩ := exists_read_of_mem (·.jobs) hnames he
      (fun s _ _ hother => s.yields_jobs hother) hrun
    have hcompose : Stage.read refs c s₀ (⟨o', "jobs"⟩, t) = jobList refs c t >>= fun jobs =>
        pure { s₀ with jobs := some jobs } := rfl
    rw [hcompose, Resolve.run_bind_eq_ok] at hentry
    obtain ⟨jobs, j₂, hrun, hpure⟩ := hentry
    cases hpure
    exact ⟨jobs, ⟨_, _, hrun⟩, hjobs⟩

/-! ### The whole root -/

/-- A stage in whose jobs names of container resources are replaced by the resources. -/
def Stage.withResources (r : Option Resources) (s : Stage) : Stage :=
  match r with
  | none => s
  | some r => { s with jobs := s.jobs.map (·.map (Job.resolveContainers r)) }

theorem resolveContainers_eq (p : Pipeline) :
    p.resolveContainers =
      { p with stages := p.stages.map (·.map (Stage.withResources p.resources)) } := by
  have hid : Stage.withResources none = id := rfl
  rcases p with ⟨_, _, _ | r, _⟩
  · simp [resolveContainers, hid]
  · rfl

/-- Where nothing is extended, the pipeline has the stages that were made. -/
theorem run_ofToken? {p : Pipeline} (hextends : "extends" ∉ entries.map (·.1.name))
    (hrun : (ofToken? refs c (.mapping o entries)).run.run j = some (.ok p, j')) :
    ∃ d stages j₁, (ownDraft refs c entries).run.run j = some (.ok d, j₁) ∧
      ((d.leaveAll (leftOf entries)).implicitStages refs c o).run.run j₁ = some (.ok stages, j') ∧
      p = resolveContainers { d.pipeline with stages := stages } := by
  rw [ofToken?_eq, Resolve.run_bind_eq_ok] at hrun
  obtain ⟨d, j₁, hown, hrun⟩ := hrun
  obtain ⟨stages, j₂, hstages, hrun⟩ := Resolve.run_bind_eq_ok.mp hrun
  obtain ⟨hfinish, rfl⟩ := Resolve.run_ofExcept_eq_ok.mp hrun
  rw [Draft.finish, ownDraft_base hextends hown] at hfinish
  exact ⟨d, stages, j₁, hown, hstages, (Except.ok.inj hfinish).symm⟩

theorem mem_leftOf (h : e.1.name ∉ ownKeys) (he : e ∈ entries) : e ∈ leftOf entries :=
  List.mem_filter.mpr ⟨he, by simpa [isOwn] using h⟩

/-- Entries that are interpreted when left over are all interpreted. -/
theorem own_or_mem_of_leftOf {keys : List String}
    (h : ∀ e ∈ leftOf entries, e.1.name ∈ keys) :
    ∀ e ∈ entries, e.1.name ∈ ownKeys ∨ e.1.name ∈ keys := by
  intro e he
  by_cases hown : e.1.name ∈ ownKeys
  · exact .inl hown
  · exact .inr (h e (mem_leftOf hown he))

section Accepted

variable {p : Pipeline} (hnames : DistinctNames entries)
  (hextends : "extends" ∉ entries.map (·.1.name))
  (hrun : (ofToken? refs c (.mapping o entries)).run.run j = some (.ok p, j'))

include hnames in
theorem distinctNames_leftOf : DistinctNames (leftOf entries) :=
  hnames.sublist (List.filter_sublist.map _)

include hnames hextends hrun

/-- With steps, all else belongs to the pipeline or to the one job that has these steps. -/
theorem composed_of_steps (hsteps : "steps" ∈ entries.map (·.1.name)) :
    (∀ e ∈ entries, e.1.name ∈ ownKeys ∨ e.1.name ∈ jobKeys) ∧
    ∀ e ∈ entries, e.1.name = "steps" →
      ∃ (steps : List Step) (job : Job), CanReturn (stepList refs c e.2) steps ∧
        job.steps = some steps ∧ p.stages = some [{ jobs := some [job] }] := by
  obtain ⟨d, stages, j₁, hown, hstages, rfl⟩ := run_ofToken? hextends hrun
  rw [implicitStages_leaveAll (ownDraft_left hown), implicitOf, if_pos hsteps,
    Resolve.run_bind_eq_ok] at hstages
  obtain ⟨job, j₂, hjob, hpure⟩ := hstages
  cases hpure
  obtain ⟨hknown, hcomposed⟩ := run_implicitJob (distinctNames_leftOf hnames) hjob
  refine ⟨own_or_mem_of_leftOf hknown, fun e he hname => ?_⟩
  have hleft : e ∈ leftOf entries := mem_leftOf (by rw [hname]; decide) he
  obtain ⟨steps, hreturn, hjobsteps⟩ := hcomposed e hleft hname
  rw [resolveContainers_eq]
  cases d.pipeline.resources with
  | none => exact ⟨steps, { job with name := none }, hreturn, hjobsteps, rfl⟩
  | some r =>
      exact ⟨steps, Job.resolveContainers r { job with name := none }, hreturn, hjobsteps, rfl⟩

/-- With jobs but no steps, all else belongs to the pipeline or to the one stage that has these
jobs. -/
theorem composed_of_jobs (hsteps : "steps" ∉ entries.map (·.1.name))
    (hjobs : "jobs" ∈ entries.map (·.1.name)) :
    (∀ e ∈ entries, e.1.name ∈ ownKeys ∨ e.1.name ∈ stageKeys) ∧
    ∀ e ∈ entries, e.1.name = "jobs" →
      ∃ (jobs : List Job) (stage : Stage), CanReturn (jobList refs c e.2) jobs ∧
        stage.jobs = some jobs ∧ p.stages = some [stage.withResources p.resources] := by
  obtain ⟨d, stages, j₁, hown, hstages, rfl⟩ := run_ofToken? hextends hrun
  rw [implicitStages_leaveAll (ownDraft_left hown), implicitOf, if_neg hsteps, if_pos hjobs,
    Resolve.run_bind_eq_ok] at hstages
  obtain ⟨stage, j₂, hstage, hpure⟩ := hstages
  cases hpure
  obtain ⟨hknown, hcomposed⟩ := run_implicitStage (distinctNames_leftOf hnames) hstage
  refine ⟨own_or_mem_of_leftOf hknown, fun e he hname => ?_⟩
  have hleft : e ∈ leftOf entries := mem_leftOf (by rw [hname]; decide) he
  obtain ⟨jobs, hreturn, hstagejobs⟩ := hcomposed e hleft hname
  rw [resolveContainers_eq]
  exact ⟨jobs, { stage with name := none }, hreturn, hstagejobs, rfl⟩

/-- Stages that stand alone are the stages of the pipeline. -/
theorem composed_of_stages (hsteps : "steps" ∉ entries.map (·.1.name))
    (hjobs : "jobs" ∉ entries.map (·.1.name)) :
    ∀ e ∈ entries, e.1.name = "stages" →
      ∃ stages : List Stage, CanReturn (stageList refs c e.2) stages ∧
        p.stages = some (stages.map (Stage.withResources p.resources)) := by
  obtain ⟨d, stages, j₁, hown, hstages, rfl⟩ := run_ofToken? hextends hrun
  rw [implicitStages_leaveAll (ownDraft_left hown), implicitOf, if_neg hsteps,
    if_neg hjobs] at hstages
  cases hstages
  rintro ⟨⟨o', name⟩, t⟩ he rfl
  obtain ⟨stages, hreturn, hcomposed⟩ := ownDraft_stages hnames he hown
  rw [resolveContainers_eq]
  exact ⟨stages, hreturn, by simp [hcomposed]⟩

end Accepted

/-- **With steps or jobs every entry of a root is interpreted, and what is composed from steps, from
jobs, or from stages that stand alone, is what the pipeline consists of.** -/
theorem composed_of_run {p : Pipeline} (hnames : DistinctNames entries)
    (hextends : "extends" ∉ entries.map (·.1.name))
    (hrun : (ofToken? refs c (.mapping o entries)).run.run j = some (.ok p, j')) :
    ("steps" ∈ entries.map (·.1.name) → ∀ e ∈ entries, e.1.name ∈ ownKeys ∨ e.1.name ∈ jobKeys) ∧
    ("jobs" ∈ entries.map (·.1.name) → ∀ e ∈ entries, e.1.name ∈ ownKeys ∨ e.1.name ∈ stageKeys) ∧
    (∀ e ∈ entries, e.1.name = "steps" →
      ∃ (steps : List Step) (job : Job), CanReturn (stepList refs c e.2) steps ∧
        job.steps = some steps ∧ p.stages = some [{ jobs := some [job] }]) ∧
    (∀ e ∈ entries, e.1.name = "jobs" →
      ∃ (jobs : List Job) (stage : Stage), CanReturn (jobList refs c e.2) jobs ∧
        stage.jobs = some jobs ∧ p.stages = some [stage.withResources p.resources]) ∧
    ("steps" ∉ entries.map (·.1.name) → "jobs" ∉ entries.map (·.1.name) →
      ∀ e ∈ entries, e.1.name = "stages" →
        ∃ stages : List Stage, CanReturn (stageList refs c e.2) stages ∧
          p.stages = some (stages.map (Stage.withResources p.resources))) := by
  -- A job does not know the key for jobs, so they are never beside steps.
  have hapart : "jobs" ∈ entries.map (·.1.name) → "steps" ∉ entries.map (·.1.name) := by
    intro hjobs hsteps
    obtain ⟨e, he, hname⟩ := List.mem_map.mp hjobs
    have hkeys := (composed_of_steps hnames hextends hrun hsteps).1 e he
    rw [hname] at hkeys
    exact absurd hkeys (by decide)
  have hmem {name : String} (e : Entry) (he : e ∈ entries) (hname : e.1.name = name) :
      name ∈ entries.map (·.1.name) := List.mem_map.mpr ⟨e, he, hname⟩
  refine ⟨fun hsteps => ?_, fun hjobs => ?_, fun e he hname => ?_, fun e he hname => ?_, ?_⟩
  · exact (composed_of_steps hnames hextends hrun hsteps).1
  · exact (composed_of_jobs hnames hextends hrun (hapart hjobs) hjobs).1
  · exact (composed_of_steps hnames hextends hrun (hmem e he hname)).2 e he hname
  · have hjobs := hmem e he hname
    exact (composed_of_jobs hnames hextends hrun (hapart hjobs) hjobs).2 e he hname
  · exact composed_of_stages hnames hextends hrun

/-- A nightly build with a step, and with a name for the job that it makes. -/
def nightly : List Entry :=
  [("name", .ofText "nightly"), ("displayName", .ofText "Build"),
    ("steps", .ofItems [.ofPairs [("script", .ofText "make")]])].map madeEntry

theorem composed_of_run_nightly :
    ∃ p, (ofToken? .none noFiles (.mapping .unknown nightly)).run.run {} = some (.ok p, {}) ∧
      (∀ e ∈ nightly, e.1.name ∈ ownKeys ∨ e.1.name ∈ jobKeys) ∧
      ∃ (steps : List Step) (job : Job), CanReturn (stepList .none noFiles
          (.ofItems [.ofPairs [("script", .ofText "make")]])) steps ∧
        job.steps = some steps ∧ p.stages = some [{ jobs := some [job] }] := by
  have hrun : ∃ p, (ofToken? .none noFiles (.mapping .unknown nightly)).run.run {} =
      some (.ok p, {}) := ⟨_, rfl⟩
  obtain ⟨p, hrun⟩ := hrun
  obtain ⟨hknown, -, hsteps, -⟩ := composed_of_run (by decide) (by decide) hrun
  exact ⟨p, hrun, hknown (by decide), hsteps _ (.tail _ (.tail _ (.head _))) rfl⟩

/-- A root with a key that nobody reads. -/
def strayRetries : List Entry :=
  [("stages", .ofItems []), ("retries", .ofInt 3)].map madeEntry

/-- The key is dropped: the pipeline is the one without it. -/
theorem retries_isDropped :
    ¬ ∀ (refs : References) (c : Context) (o : Template.Origin) (entries : List Entry)
        (p : Pipeline) (j j' : Journal),
      DistinctNames entries → "extends" ∉ entries.map (·.1.name) →
        (ofToken? refs c (.mapping o entries)).run.run j = some (.ok p, j') →
          ∀ e ∈ entries, e.1.name ∈ ownKeys ∨ e.1.name ∈ jobKeys ∨ e.1.name ∈ stageKeys := by
  intro hall
  have hrun : (ofToken? .none noFiles (.mapping .unknown strayRetries)).run.run {} =
      some (.ok { stages := some [] }, {}) := rfl
  have hretries := hall _ _ _ _ _ _ _ (by decide) (by decide) hrun _ (.tail _ (.head _))
  exact absurd hretries (by decide)

/-- A root with a stage and with steps beside it. -/
def stageAndSteps : List Entry :=
  [("stages", .ofItems [.ofPairs [("stage", .ofText "a")]]),
    ("steps", .ofItems [.ofPairs [("script", .ofText "make")]])].map madeEntry

/-- The stage is dropped: the one stage of the pipeline has no name. -/
theorem stage_isDropped :
    stageList .none noFiles (.ofItems [.ofPairs [("stage", .ofText "a")]]) =
        pure [{ name := some "a" }] ∧
      ∃ p s j', (ofToken? .none noFiles (.mapping .unknown stageAndSteps)).run.run {} =
        some (.ok p, j') ∧ p.stages = some [s] ∧ s.name = none :=
  ⟨rfl, _, _, _, rfl, rfl, rfl⟩

end PipelineExpansion.Pipeline
