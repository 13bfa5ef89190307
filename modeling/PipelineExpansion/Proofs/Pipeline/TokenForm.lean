import PipelineExpansion.Proofs.Pipeline.References

/-!
# What has been composed comes back from its token

Steps, jobs and stages are handed on to templates as tokens. Whatever was read to compose them,
their tokens are read back without any file: reading them is equal to `pure`, so that it returns
what it does from every journal, leaves the journal as it is, and follows no reference. All that
has to be the same is the catalog of tasks.

Steps come back as they are, and so do the parts of jobs. Jobs and stages do not always: the token of
a job that is no deployment has no environment, and the token of a deployment has no steps.

## Main results

* `stepList_stepsToken_of_stepList`: steps come back from their token.
* `parts_of_ofToken?`: so do containers, pools, strategies and variables.
* `ofToken?_toToken_of_ofToken?`: which jobs and stages come back from theirs.
-/

namespace PipelineExpansion.Pipeline

open Template (Context Resolve Token)
open Template.Resolve

/-! ### Steps -/

/-- **Steps come back from their token**, however deep the templates were that they come from. -/
theorem stepList_stepsToken_of_stepList {n : Nat} {c c' : Context} {t : Token}
    {j j' : Template.Journal} {steps : List Step}
    (h : (stepList (references n) c t).run.run j = some (.ok steps, j'))
    (htasks : c'.tasks = c.tasks) (refs : References) :
    stepList refs c' (stepsToken steps) = pure steps :=
  stepList_stepsToken (yields_stepList (references_sound n).steps c t j steps j' h) htasks rfl

/-- A context with a template of one step and no catalog. -/
def oneTemplate : Context where
  files := Files.inMemory [⟨none, "steps.yml", "steps:\n- script: make\n"⟩]
  schema := .standard

/-- A context without any file. -/
def noFiles : Context where
  files := Files.inMemory []
  schema := .standard

/-- A template, and a shorthand with a target and inputs. -/
def templateAndShorthand : Token :=
  .ofItems [
    .ofPairs [("template", .ofText "steps.yml")],
    .ofPairs [("bash", .ofText "ls"), ("target", .ofText "host"), ("workingDirectory", .ofText ""),
      ("timeoutInMinutes", .ofInt (-5))]]

theorem stepList_stepsToken_templateAndShorthand :
    ∃ steps j, (stepList (references 1) oneTemplate templateAndShorthand).run.run {}
        = some (.ok steps, j) ∧ steps.length = 2 ∧
      stepList .none noFiles (stepsToken steps) = pure steps := by
  have hreads : ((stepList (references 1) oneTemplate templateAndShorthand).run.run {}).any
      (fun r => r.1.toOption.any fun steps => steps.length == 2) = true := by decide +kernel
  have htasks : noFiles.tasks = oneTemplate.tasks := rfl
  obtain ⟨⟨outcome, j⟩, hrun, hlength⟩ := (Option.any_eq_true _ _).mp hreads
  cases outcome with
  | error d => cases hlength
  | ok steps =>
      exact ⟨steps, j, hrun, by simpa [Except.toOption] using hlength,
        stepList_stepsToken_of_stepList hrun htasks .none⟩

/-! ### Parts of jobs -/

/-- **The parts of jobs come back from their tokens**: containers and pools, strategies for the kind
of job that they were read for, and variables with the groups among them, in their order. -/
theorem parts_of_ofToken? (n : Nat) (c : Context) (t : Token) :
    (∀ container, Container.ofToken? t = .ok container →
      Container.ofToken? container.toToken = .ok container) ∧
    (∀ pool, Pool.ofToken? t = .ok pool → Pool.ofToken? pool.toToken = .ok pool) ∧
    (∀ (deployment : Bool) (s : Strategy) (j j' : Template.Journal),
      (Strategy.ofToken? (references n) c t deployment).run.run j = some (.ok s, j') →
      ∀ (refs : References) (c' : Context), c'.tasks = c.tasks →
        Strategy.ofToken? refs c' s.toToken deployment = pure s) ∧
    ∀ (vars : List Variable) (j j' : Template.Journal),
      (addVariables (references n) c [] t).run.run j = some (.ok vars, j') →
      ∀ (refs : References) (c' : Context),
        addVariables refs c' [] (variablesToken vars) = pure vars := by
  refine ⟨fun container hread => ?_, fun pool _ => pool.ofToken?_toToken,
    fun deployment s j j' hread refs c' htasks => ?_, fun vars j j' hread refs c' => ?_⟩
  · exact Container.ofToken?_toToken (Container.ensures_ofToken? t container hread)
  · have hsound := yields_strategy (references_sound n).steps c t deployment j s j' hread
    exact Strategy.ofToken?_toToken hsound htasks
  · have hvars := (references_sound n).vars
    exact addVariables_variablesToken
      (yields_addVariables hvars c soundVariables_nil t j vars j' hread)

/-- A container with an environment that is not in order, and collections without items. -/
def buildContainer : Token :=
  .ofPairs [("container", .ofText "build"), ("env", .ofPairs [("B", .ofText ""), ("A", .ofText "1")]),
    ("ports", .ofItems []), ("mountReadOnly", .ofPairs [])]

/-- A canary rollout with increments, and a hook for failures. -/
def canaryRollout : Token :=
  .ofPairs [("canary", .ofPairs [
    ("increments", .ofItems [.ofText "10", .ofText "20"]),
    ("on", .ofPairs [("failure", .ofPairs [("pool", .ofText "spare"),
      ("steps", .ofItems [.ofPairs [("bash", .ofText "ls")]])])])])]

/-- A variable that is given again behind a group, under a name of another case. -/
def givenAgain : Token :=
  .ofItems [
    .ofPairs [("name", .ofText "config"), ("value", .ofText "debug")],
    .ofPairs [("group", .ofText "secrets")],
    .ofPairs [("name", .ofText "CONFIG"), ("readonly", .ofBool true)]]

theorem parts_of_ofToken?_canary :
    (∃ container, Container.ofToken? buildContainer = .ok container ∧
      Container.ofToken? container.toToken = .ok container) ∧
    (∃ pool, Pool.ofToken? (.ofText "") = .ok pool ∧ Pool.ofToken? pool.toToken = .ok pool) ∧
    (∃ s, (Strategy.ofToken? (references 1) noFiles canaryRollout true).run.run {}
        = some (.ok s, {}) ∧
      Strategy.ofToken? .none noFiles s.toToken true = pure s) ∧
    ∃ vars, (addVariables (references 1) noFiles [] givenAgain).run.run {} = some (.ok vars, {}) ∧
      vars = [.value "CONFIG" "" true, .group "secrets"] ∧
      addVariables .none noFiles [] (variablesToken vars) = pure vars := by
  refine ⟨⟨_, rfl, ?_⟩, ⟨_, rfl, ?_⟩, ⟨_, rfl, ?_⟩, ⟨_, rfl, rfl, ?_⟩⟩
  · exact (parts_of_ofToken? 1 noFiles buildContainer).1 _ rfl
  · exact (parts_of_ofToken? 1 noFiles (.ofText "")).2.1 _ rfl
  · exact (parts_of_ofToken? 1 noFiles canaryRollout).2.2.1 true _ {} {} rfl .none noFiles rfl
  · exact (parts_of_ofToken? 1 noFiles givenAgain).2.2.2 _ {} {} rfl .none noFiles

/-! ### Jobs and stages -/

/-- **Of jobs and stages, what is kept comes back from their tokens.** A job comes back as it is if
it is a deployment without steps, or another job without an environment; a stage, if all its jobs
do. -/
theorem ofToken?_toToken_of_ofToken? (n : Nat) (c : Context) (t : Token)
    (j j' : Template.Journal) :
    (∀ job : Job, (Job.ofToken? (references n) c t false).run.run j = some (.ok job, j') →
      (∀ (refs : References) (c' : Context), c'.tasks = c.tasks →
        Job.ofToken? refs c' job.toToken false = pure job.kept) ∧
      (job.kept = job ↔ job.Writable)) ∧
    ∀ stage : Stage, (Stage.ofToken? (references n) c t false).run.run j = some (.ok stage, j') →
      (∀ (refs : References) (c' : Context), c'.tasks = c.tasks →
        Stage.ofToken? refs c' stage.toToken false = pure stage.kept) ∧
      (stage.kept = stage ↔ ∀ jobs ∈ stage.jobs, ∀ job ∈ jobs, job.Writable) := by
  refine ⟨fun job hjob => ⟨fun refs c' htasks => ?_, job.kept_eq_self_iff⟩,
    fun stage hstage => ⟨fun refs c' htasks => ?_, ?_⟩⟩
  · have hsound := yields_job (references_sound n).toSoundParts c t false j job j' hjob
    exact Job.ofToken?_toToken hsound htasks rfl
  · have hsound := yields_stage (references_sound n).toSoundParts c t false j stage j' hstage
    exact Stage.ofToken?_toToken hsound htasks rfl
  · simp only [stage.kept_eq_self_iff, Job.kept_eq_self_iff]

/-- A deployment with an environment and a rollout. -/
def shipToProd : Token :=
  .ofPairs [
    ("deployment", .ofText "ship"),
    ("environment", .ofText "prod"),
    ("strategy", .ofPairs [("runOnce", .ofPairs [("deploy", .ofPairs [("steps", .ofItems [
      .ofPairs [("script", .ofText "make")]])])])])]

theorem ofToken?_toToken_shipToProd :
    ∃ job, (Job.ofToken? (references 1) noFiles shipToProd false).run.run {} = some (.ok job, {}) ∧
      job.environment = some { name := "prod" } ∧
      Job.ofToken? .none noFiles job.toToken false = pure job := by
  refine ⟨_, rfl, rfl, ?_⟩
  have hback := (ofToken?_toToken_of_ofToken? 1 noFiles shipToProd {} {}).1 _ rfl
  refine (hback.1 .none noFiles rfl).trans (congrArg pure (hback.2.mpr ?_))
  rfl

/-- A job that is no deployment, with an environment. -/
def buildToProd : Token := .ofPairs [("job", .ofText "build"), ("environment", .ofText "prod")]

/-- The environment of such a job is lost. -/
theorem buildToProd_losesEnvironment :
    ¬ ∀ (t : Token) (job : Job) (j j' : Template.Journal),
      (Job.ofToken? (references 1) noFiles t false).run.run j = some (.ok job, j') →
      Job.ofToken? (references 1) noFiles job.toToken false = pure job := by
  intro h
  have hread : (Job.ofToken? (references 1) noFiles buildToProd false).run.run {}
      = some (.ok { name := some "build", environment := some { name := "prod" } }, {}) := rfl
  have hback := congrArg (fun step => step.run.run {}) (h _ _ _ _ hread)
  have hsame : some
      ((.ok { name := some "build" } : Except Diagnostic Job), ({} : Template.Journal))
      = some (.ok { name := some "build", environment := some { name := "prod" } }, {}) := hback
  cases hsame

end PipelineExpansion.Pipeline
