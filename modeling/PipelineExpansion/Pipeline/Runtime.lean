import PipelineExpansion.DependencyGraph
import PipelineExpansion.Expression.Parse
import PipelineExpansion.Pipeline.Model
import PipelineExpansion.Text.Name
import PipelineExpansion.Text.Pieces

/-!
# Checks before a run

`prepare` does to a pipeline what is done before it is run: it gives names to the stages and jobs that have
none, makes a stage without dependencies depend on the one before it, and gives jobs without a pool that
of their stage or pipeline. Then dependencies must be there and without cycles, and expressions for the
time of the run must be well-formed. What was done before a failure stays done.
-/

namespace PipelineExpansion.Pipeline

/-- The name of the only stage, or of the only job of a stage, when it has none. -/
def defaultName : String := "__default"

/-! ### Names -/

/-- Whether a text is a name: letters, digits and underscores, the first no digit. -/
def isName (s : String) : Bool :=
  match s.toList with
  | c :: rest => (c.isAlpha || c = '_') && rest.all fun c => c.isAlphanum || c = '_'
  | [] => false

/-- What is wrong with names, and the folded names in use, those that are no names left out. -/
def checkNames (what : String) : List String → List String → List String × List String
  | [], used => ([], used)
  | name :: rest, used =>
    let (fault, used) :=
      if !isName name then
        ([what ++ " name '" ++ name ++ "' is invalid. Names may only contain letters, numbers and '_', " ++
            "and must not start with a number"], used)
      else if used.contains (Text.fold name) then
        ([what ++ " name '" ++ name ++ "' is used more than once"], used)
      else ([], Text.fold name :: used)
    let (faults, used) := checkNames what rest used
    (fault ++ faults, used)

/-- The folded names in use, if nothing is wrong with the names. -/
def knownNames (what : String) (names : List String) : Except Diagnostic (List String) :=
  match checkNames what names [] with
  | ([], used) => .ok used
  | (faults, _) => .error (.meaning (Text.join ". " faults))

/-- The name of something, generated if it has none, and the folded names in use. -/
def nameFor (word : String) (single : Bool) (used : List String) : Option String → String × List String
  | some name => (name, used)
  | none =>
    if single then (defaultName, used)
    else
      let name := Text.freshName word used
      (name, Text.fold name :: used)

/-- Gives jobs their names and pools. -/
def nameJobList (single : Bool) (pool : Option Pool) : List String → List Job → List Job
  | _, [] => []
  | used, j :: rest =>
    let (name, used) := nameFor "Job" single used j.name
    { j with name := some name, pool := j.pool <|> pool } :: nameJobList single pool used rest

/-- Gives the jobs of a stage their names and pools. -/
def nameJobs (pool : Option Pool) : Option (List Job) → Except Diagnostic (Option (List Job))
  | none => .ok none
  | some jobs => do
    let used ← knownNames "Job" (jobs.filterMap (·.name))
    return some (nameJobList (jobs.length = 1) pool used jobs)

/-- Gives stages and their jobs their names, and stages the dependency on the one before. A stage whose
jobs cannot be named ends it. -/
def nameStageList (single : Bool) (pool : Option Pool) :
    List String → Option String → List Stage → List Stage × Except Diagnostic Unit
  | _, _, [] => ([], .ok ())
  | used, previous, s :: rest =>
    let (name, used) := nameFor "Stage" single used s.name
    let s := { s with name := some name, dependsOn := s.dependsOn <|> previous.map fun p => [p] }
    match nameJobs (s.pool <|> pool) s.jobs with
    | .error d => (s :: rest, .error d)
    | .ok jobs =>
      let (rest, outcome) := nameStageList single pool used (some name) rest
      ({ s with jobs } :: rest, outcome)

/-- Gives the stages and jobs of a pipeline their names, dependencies and pools. -/
def initializeNames (p : Pipeline) : Pipeline × Except Diagnostic Unit :=
  let stages := p.stages.getD []
  match knownNames "Stage" (stages.filterMap (·.name)) with
  | .error d => ({ p with stages := some stages }, .error d)
  | .ok used =>
    let (stages, outcome) := nameStageList (stages.length = 1) p.pool used none stages
    ({ p with stages := some stages }, outcome)

/-! ### Dependencies -/

/-- The graph of some stages. -/
def stageGraph (stages : List Stage) : DependencyGraph :=
  stages.map fun s => ⟨s.name.getD "", s.dependsOn.getD []⟩

/-- The graph of some jobs. -/
def jobGraph (jobs : List Job) : DependencyGraph :=
  jobs.map fun j => ⟨j.name.getD "", j.dependsOn.getD []⟩

/-- Checks a graph; `kind` and `noun` name its nodes in the diagnostic. -/
def checkGraph (g : DependencyGraph) (kind noun : String) : Except Diagnostic Unit :=
  g.check.mapError fun
    | .unknown node need =>
      .meaning (kind ++ " '" ++ node ++ "' depends on unknown " ++ noun ++ " '" ++ need ++ "'")
    | .cycle nodes => .meaning ("Detected dependency cycle: " ++ Text.join " -> " (g.namesOf nodes))

/-- Checks the dependencies between the stages and between the jobs of each stage. -/
def checkDependencies (p : Pipeline) : Except Diagnostic Unit := do
  let stages := p.stages.getD []
  checkGraph (stageGraph stages) "Stage" "stage"
  stages.forM fun s => checkGraph (jobGraph (s.jobs.getD [])) "Job" "job"

/-! ### Expressions -/

/-- What is wrong with an expression, if anything. -/
def expressionFaults (source : String) : List String :=
  match Expression.parse source with
  | .ok _ => []
  | .error f => [f.diagnostic.message]

/-- What is wrong with a condition. -/
def conditionFaults (condition : Option String) : List String :=
  (condition.map expressionFaults).getD []

/-- What is wrong with a value: one in `$[ ]` is an expression, any other is what it is. -/
def valueFaults (value : Option String) : List String :=
  match value.bind fun v => (Text.stripPrefix? "$[" v).bind (Text.stripSuffix? "]") with
  | some source => expressionFaults source
  | none => []

/-- What is wrong with variables. -/
def variableFaults (vars : Option (List Variable)) : List String :=
  (vars.getD []).flatMap fun
    | .value _ value _ => valueFaults (some value)
    | .group _ => []

/-- What is wrong with a strategy. -/
def strategyFaults (s : Strategy) : List String :=
  valueFaults s.matrixExpression ++ valueFaults s.maxParallel ++ valueFaults s.parallel

/-- What is wrong with a job. -/
def jobFaults (j : Job) : List String :=
  variableFaults j.vars ++ conditionFaults j.condition ++ valueFaults j.continueOnError
    ++ (j.strategy.map strategyFaults).getD []
    ++ (j.steps.getD []).flatMap fun s => conditionFaults s.condition

/-- What is wrong with a stage. -/
def stageFaults (s : Stage) : List String :=
  variableFaults s.vars ++ conditionFaults s.condition ++ (s.jobs.getD []).flatMap jobFaults

/-- What is wrong with the expressions in a pipeline. -/
def runtimeFaults (p : Pipeline) : List String :=
  variableFaults p.vars ++ (p.stages.getD []).flatMap stageFaults

/-- Prepares a pipeline for a run: the pipeline as far as it is prepared, and whether it can be run. -/
def prepare (p : Pipeline) : Pipeline × Except Diagnostic Unit :=
  match p.initializeNames with
  | (p, .error d) => (p, .error d)
  | (p, .ok ()) =>
    (p, do
      p.checkDependencies
      match p.runtimeFaults with
      | [] => return
      | faults => throw (.meaning (Text.join ". " faults)))

end PipelineExpansion.Pipeline
