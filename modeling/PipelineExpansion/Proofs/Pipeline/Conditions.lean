import PipelineExpansion.Proofs.Pipeline.Preparation

/-!
# Prepared pipelines have conditions that can be evaluated

The last check of `prepare` is of expressions. When it succeeds, the conditions of stages, of jobs and of
the steps that jobs list are expressions (`conditions`). Steps of a deployment stand in the hooks of
its strategy, and there the check does not look: whatever the hooks of a pipeline are, preparing it
does the same (`prepare_mapHooks`).

## Main results

* `parse_of_prepare`: what is checked, and what is not.
-/

namespace PipelineExpansion.Pipeline

/-! ### Conditions -/

/-- The conditions of some steps. -/
def stepConditions (steps : Option (List Step)) : List String :=
  (steps.getD []).flatMap fun s => s.condition.toList

/-- The conditions of a job and of the steps that it lists. -/
def Job.conditions (j : Job) : List String := j.condition.toList ++ stepConditions j.steps

/-- The conditions of a stage and of its jobs. -/
def Stage.conditions (s : Stage) : List String :=
  s.condition.toList ++ (s.jobs.getD []).flatMap Job.conditions

/-- The conditions of the stages of a pipeline, of their jobs, and of the steps that these list. -/
def conditions (p : Pipeline) : List String := (p.stages.getD []).flatMap Stage.conditions

/-- All hooks of a rollout. -/
def Hooks.all (h : Hooks) : List Hook :=
  [h.preDeploy, h.deploy, h.routeTraffic, h.postRouteTraffic, h.onFailure, h.onSuccess].reduceOption

/-- All hooks of a strategy. -/
def Strategy.hooks (s : Strategy) : List Hook :=
  [s.runOnce, s.rolling, s.canary].reduceOption.flatMap Hooks.all

/-- The conditions of the steps in the hooks of a job. -/
def Job.hookConditions (j : Job) : List String :=
  ((j.strategy.map Strategy.hooks).getD []).flatMap fun h => stepConditions h.steps

/-- The conditions of the steps in the hooks of all jobs of a pipeline. -/
def hookConditions (p : Pipeline) : List String :=
  (p.stages.getD []).flatMap fun s => (s.jobs.getD []).flatMap Job.hookConditions

/-! ### Naming keeps conditions -/

theorem flatMap_eq_of_forall₂ {α β γ : Type} {R : α → β → Prop} {f : α → List γ} {g : β → List γ}
    (hfg : ∀ a b, R a b → g b = f a) {as : List α} {bs : List β} (h : List.Forall₂ R as bs) :
    bs.flatMap g = as.flatMap f := by
  induction h with
  | nil => rfl
  | cons hab _ ih => rw [List.flatMap_cons, List.flatMap_cons, hfg _ _ hab, ih]

theorem Job.Completes.conditions {before after : Job} (h : before.Completes after) :
    after.conditions = before.conditions := by
  rw [h.rest]
  rfl

theorem Stage.Completes.conditions {before after : Stage} (h : before.Completes after) :
    after.conditions = before.conditions := by
  have hcondition : after.condition = before.condition := by rw [h.rest]
  have hjobs := flatMap_eq_of_forall₂ (fun _ _ hjob => Job.Completes.conditions hjob) h.jobs
  rw [Stage.conditions, Stage.conditions, hcondition, hjobs]

theorem completes_of_initializeNames {p p' : Pipeline} (h : p.initializeNames = (p', .ok ())) :
    Completes p p' := by
  obtain ⟨used, stages, -, hstages, rfl⟩ := initializeNames_eq_ok.mp h
  exact ⟨rfl, (nameStageList_spec hstages).2.completes⟩

theorem Completes.conditions {before after : Pipeline} (h : before.Completes after) :
    after.conditions = before.conditions :=
  flatMap_eq_of_forall₂ (fun _ _ hstage => Stage.Completes.conditions hstage) h.stages

/-! ### What is checked -/

theorem expressionFaults_eq_nil {source : String} :
    expressionFaults source = [] ↔ ∃ e, Expression.parse source = .ok e := by
  rw [expressionFaults]
  split
  · next e he => exact ⟨fun _ => ⟨e, he⟩, fun _ => rfl⟩
  · next d hd => exact ⟨nofun, fun ⟨e, he⟩ => by cases hd.symm.trans he⟩

theorem runtimeFaults_of_prepare {p p' : Pipeline} (h : p.prepare = (p', .ok ())) :
    p'.runtimeFaults = [] := by
  obtain ⟨hnames, -⟩ := initializeNames_of_prepare h
  rw [prepare, hnames] at h
  obtain ⟨_, -, hfaults⟩ := bind_eq_ok.mp (congrArg Prod.snd h)
  split at hfaults
  · next hnil => exact hnil
  · cases hfaults

/-- A condition without fault can be parsed. -/
theorem parse_of_conditionFaults {condition : Option String} (h : conditionFaults condition = []) :
    ∀ c ∈ condition.toList, ∃ e, Expression.parse c = .ok e := by
  cases condition with
  | none => exact List.forall_mem_nil _
  | some source => exact List.forall_mem_singleton.mpr (expressionFaults_eq_nil.mp h)

theorem parse_of_jobFaults {j : Job} (h : jobFaults j = []) :
    ∀ c ∈ j.conditions, ∃ e, Expression.parse c = .ok e := by
  simp only [jobFaults, List.append_eq_nil_iff, List.flatMap_eq_nil_iff] at h
  obtain ⟨⟨⟨⟨-, hcondition⟩, -⟩, -⟩, hsteps⟩ := h
  refine List.forall_mem_append.mpr ⟨parse_of_conditionFaults hcondition, fun c hc => ?_⟩
  obtain ⟨s, hs, hc⟩ := List.mem_flatMap.mp hc
  exact parse_of_conditionFaults (hsteps s hs) c hc

theorem parse_of_stageFaults {s : Stage} (h : stageFaults s = []) :
    ∀ c ∈ s.conditions, ∃ e, Expression.parse c = .ok e := by
  simp only [stageFaults, List.append_eq_nil_iff, List.flatMap_eq_nil_iff] at h
  obtain ⟨⟨-, hcondition⟩, hjobs⟩ := h
  refine List.forall_mem_append.mpr ⟨parse_of_conditionFaults hcondition, fun c hc => ?_⟩
  obtain ⟨j, hj, hc⟩ := List.mem_flatMap.mp hc
  exact parse_of_jobFaults (hjobs j hj) c hc

theorem parse_of_runtimeFaults {p : Pipeline} (h : p.runtimeFaults = []) :
    ∀ c ∈ p.conditions, ∃ e, Expression.parse c = .ok e := by
  simp only [runtimeFaults, List.append_eq_nil_iff, List.flatMap_eq_nil_iff] at h
  intro c hc
  obtain ⟨s, hs, hc⟩ := List.mem_flatMap.mp hc
  exact parse_of_stageFaults (h.2 s hs) c hc

/-! ### What is not checked -/

/-- Changes the hooks of a rollout. -/
def Hooks.map (f : Hook → Hook) (h : Hooks) : Hooks :=
  { h with
    preDeploy := h.preDeploy.map f
    deploy := h.deploy.map f
    routeTraffic := h.routeTraffic.map f
    postRouteTraffic := h.postRouteTraffic.map f
    onFailure := h.onFailure.map f
    onSuccess := h.onSuccess.map f }

/-- Changes the hooks of a strategy. -/
def Strategy.mapHooks (f : Hook → Hook) (s : Strategy) : Strategy :=
  { s with
    runOnce := s.runOnce.map (Hooks.map f)
    rolling := s.rolling.map (Hooks.map f)
    canary := s.canary.map (Hooks.map f) }

/-- Changes the hooks of a job. -/
def Job.mapHooks (f : Hook → Hook) (j : Job) : Job :=
  { j with strategy := j.strategy.map (Strategy.mapHooks f) }

/-- Changes the hooks of the jobs of a stage. -/
def Stage.mapHooks (f : Hook → Hook) (s : Stage) : Stage :=
  { s with jobs := s.jobs.map (List.map (Job.mapHooks f)) }

/-- Changes the hooks of all jobs of a pipeline. -/
def mapHooks (f : Hook → Hook) (p : Pipeline) : Pipeline :=
  { p with stages := p.stages.map (List.map (Stage.mapHooks f)) }

section MapHooks

variable (f : Hook → Hook)

theorem getD_map_map {α β : Type} (g : α → β) (items : Option (List α)) :
    (items.map (List.map g)).getD [] = (items.getD []).map g := by
  cases items <;> rfl

theorem nameJobList_map (single : Bool) (pool : Option Pool) (used : List String)
    (jobs : List Job) :
    nameJobList single pool used (jobs.map (Job.mapHooks f)) =
      (nameJobList single pool used jobs).map (Job.mapHooks f) := by
  induction jobs generalizing used with
  | nil => rfl
  | cons j rest ih =>
      rw [List.map_cons, nameJobList_cons, nameJobList_cons, List.map_cons, ← ih]
      rfl

theorem nameJobs_map (pool : Option Pool) (jobs : Option (List Job)) :
    nameJobs pool (jobs.map (List.map (Job.mapHooks f))) =
      (nameJobs pool jobs).map (Option.map (List.map (Job.mapHooks f))) := by
  cases jobs with
  | none => rfl
  | some jobs =>
      have hnames : (jobs.map (Job.mapHooks f)).filterMap (·.name) = jobs.filterMap (·.name) :=
        List.filterMap_map
      simp only [Option.map_some, nameJobs, hnames, List.length_map, nameJobList_map]
      cases knownNames "Job" (jobs.filterMap (·.name)) <;> rfl

theorem nameStageList_map (single : Bool) (pool : Option Pool) (used : List String)
    (previous : Option String) (stages : List Stage) :
    nameStageList single pool used previous (stages.map (Stage.mapHooks f)) =
      ((nameStageList single pool used previous stages).1.map (Stage.mapHooks f),
        (nameStageList single pool used previous stages).2) := by
  induction stages generalizing used previous with
  | nil => rfl
  | cons s rest ih =>
      have hjobs : nameJobs ((s.mapHooks f).pool <|> pool) (s.mapHooks f).jobs =
          (nameJobs (s.pool <|> pool) s.jobs).map (Option.map (List.map (Job.mapHooks f))) :=
        nameJobs_map f _ s.jobs
      have hname : (s.mapHooks f).name = s.name := rfl
      simp only [List.map_cons, nameStageList, hjobs, hname]
      cases nameJobs (s.pool <|> pool) s.jobs with
      | error d => rfl
      | ok jobs =>
          simp only [Except.map, ih]
          rfl

theorem initializeNames_mapHooks (p : Pipeline) :
    (p.mapHooks f).initializeNames = (p.initializeNames.1.mapHooks f, p.initializeNames.2) := by
  have hstages : (p.mapHooks f).stages.getD [] = (p.stages.getD []).map (Stage.mapHooks f) :=
    getD_map_map _ p.stages
  have hpool : (p.mapHooks f).pool = p.pool := rfl
  have hnames : ((p.stages.getD []).map (Stage.mapHooks f)).filterMap (·.name) =
      (p.stages.getD []).filterMap (·.name) := List.filterMap_map
  simp only [initializeNames, hstages, hpool, hnames, List.length_map, nameStageList_map]
  cases Pipeline.knownNames "Stage" ((p.stages.getD []).filterMap (·.name)) <;> rfl

theorem checkDependencies_mapHooks (p : Pipeline) :
    (p.mapHooks f).checkDependencies = p.checkDependencies := by
  have hjobs : ∀ s : Stage, jobGraph ((s.mapHooks f).jobs.getD []) = jobGraph (s.jobs.getD []) := by
    intro s
    rw [Stage.mapHooks, getD_map_map]
    exact List.map_map
  have hstages : (p.mapHooks f).stages.getD [] = (p.stages.getD []).map (Stage.mapHooks f) :=
    getD_map_map _ p.stages
  have hgraph : stageGraph ((p.stages.getD []).map (Stage.mapHooks f)) =
      stageGraph (p.stages.getD []) := List.map_map
  simp only [checkDependencies, hstages, hgraph, List.forM_eq_forM, List.forM_map, hjobs]

theorem jobFaults_mapHooks (j : Job) : jobFaults (j.mapHooks f) = jobFaults j := by
  have hstrategy : (j.mapHooks f).strategy.map strategyFaults = j.strategy.map strategyFaults :=
    Option.map_map _ _ _
  rw [jobFaults, hstrategy]
  rfl

theorem stageFaults_mapHooks (s : Stage) : stageFaults (s.mapHooks f) = stageFaults s := by
  have hjobs : ((s.mapHooks f).jobs.getD []).flatMap jobFaults = (s.jobs.getD []).flatMap jobFaults := by
    rw [Stage.mapHooks, getD_map_map, List.flatMap_map]
    simp only [jobFaults_mapHooks]
  rw [stageFaults, hjobs]
  rfl

theorem runtimeFaults_mapHooks (p : Pipeline) : (p.mapHooks f).runtimeFaults = p.runtimeFaults := by
  rw [runtimeFaults, mapHooks, getD_map_map, List.flatMap_map]
  simp only [stageFaults_mapHooks]
  rfl

/-- **Preparing a pipeline does not look at hooks.** -/
theorem prepare_mapHooks (p : Pipeline) :
    (p.mapHooks f).prepare = (p.prepare.1.mapHooks f, p.prepare.2) := by
  rw [prepare, prepare, initializeNames_mapHooks]
  rcases p.initializeNames with ⟨named, _ | _⟩
  · rfl
  · simp only [checkDependencies_mapHooks, runtimeFaults_mapHooks]

end MapHooks

/-- **The conditions of a pipeline whose preparation succeeds can be parsed**: those of stages, of jobs and
of the steps that jobs list, in the pipeline that was given and in the one that is prepared. The hooks
have no part in it; with others in their place the preparation succeeds as well. -/
theorem parse_of_prepare {p p' : Pipeline} (h : p.prepare = (p', .ok ())) :
    (∀ c ∈ p.conditions, ∃ e, Expression.parse c = .ok e) ∧ p'.conditions = p.conditions ∧
      ∀ f, (p.mapHooks f).prepare = (p'.mapHooks f, .ok ()) := by
  have hkept := (completes_of_initializeNames (initializeNames_of_prepare h).1).conditions
  refine ⟨?_, hkept, fun f => ?_⟩
  · rw [← hkept]
    exact parse_of_runtimeFaults (runtimeFaults_of_prepare h)
  · rw [prepare_mapHooks, h]

/-- A pipeline with conditions at a stage, at a job and at a step. -/
def guardedStage : Pipeline where
  stages := some [
    { name := none
      condition := some "succeeded()"
      jobs := some [
        { name := some "build"
          condition := some "and(succeeded(), eq(1, 1))"
          steps := some [{ condition := some "always()" }] }] }]

theorem parse_of_prepare_guardedStage :
    guardedStage.prepare = (guardedStage.prepare.1, .ok ()) ∧
      guardedStage.conditions = ["succeeded()", "and(succeeded(), eq(1, 1))", "always()"] ∧
      ∀ c ∈ guardedStage.conditions, ∃ e, Expression.parse c = .ok e := by
  have hrun : guardedStage.prepare = (guardedStage.prepare.1, .ok ()) :=
    Prod.ext rfl (by decide +kernel)
  exact ⟨hrun, rfl, (parse_of_prepare hrun).1⟩

/-- A deployment with a step in a hook, the condition of which is no expression. -/
def brokenHook : Pipeline where
  stages := some [
    { jobs := some [
        { name := some "ship"
          deployment := true
          environment := some { name := "prod" }
          strategy := some { runOnce := some { deploy := some {
            steps := some [{ condition := some "eq(" }] } } } }] }]

/-- The condition in the hook is not checked. -/
theorem brokenHook_isPrepared :
    ¬ ∀ p p' : Pipeline, p.prepare = (p', .ok ()) →
      ∀ c ∈ p.conditions ++ p.hookConditions, ∃ e, Expression.parse c = .ok e := by
  have hrun : brokenHook.prepare = (brokenHook.prepare.1, .ok ()) :=
    Prod.ext rfl (by decide +kernel)
  have hcondition : "eq(" ∈ brokenHook.conditions ++ brokenHook.hookConditions := by decide
  have hbroken : (Expression.parse "eq(").isOk = false := by decide +kernel
  intro hparses
  obtain ⟨e, he⟩ := hparses _ _ hrun _ hcondition
  rw [he] at hbroken
  cases hbroken

end PipelineExpansion.Pipeline
