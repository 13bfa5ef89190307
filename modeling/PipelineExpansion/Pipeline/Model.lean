import PipelineExpansion.Dictionary
import PipelineExpansion.Task.Catalog
import PipelineExpansion.Task.Inputs
import PipelineExpansion.Template.Token

/-!
# Pipelines

A pipeline is made of stages, a stage of jobs, a job of steps. All templates are spliced in, and every
step is a task. Values that may hold expressions for the time of the run are texts.
-/

namespace PipelineExpansion.Pipeline

/-- A variable with a value, or a group of variables that is defined elsewhere. -/
inductive Variable where
  | value (name value : String) (readonly : Bool)
  | group (name : String)
deriving DecidableEq, Repr

/-- The name of a variable; groups have none. -/
def Variable.name? : Variable → Option String
  | value name _ _ => some name
  | group _ => none

/-! ### Steps -/

/-- Which task a step runs. Only the text of the reference is known where there is no catalog. -/
structure TaskReference where
  identity : Option Task.Identity := none
  nameAndVersion : String := ""
deriving DecidableEq, Repr

/-- Where a step runs. No settable variables at all is not the same as nothing said about them. -/
structure Target where
  container : Option String := none
  commands : Option String := none
  settableVariables : Option (List String) := none
deriving DecidableEq, Repr

/-- A step. -/
structure Step where
  reference : TaskReference := {}
  name : Option String := none
  displayName : Option String := none
  condition : Option String := none
  continueOnError : Option Bool := none
  enabled : Option Bool := none
  retryCountOnTaskFailure : Option Int := none
  timeoutInMinutes : Option Int := none
  target : Option Target := none
  env : Dictionary String := []
  inputs : Task.Inputs := ∅
deriving BEq, Repr

/-! ### Containers and pools -/

/-- The directories of a container that may be read-only. -/
structure Mounts where
  work : Option String := none
  externals : Option String := none
  tools : Option String := none
  tasks : Option String := none
deriving DecidableEq, Repr

/-- A container. A resource has an alias. -/
structure Container where
  aliasName : Option String := none
  image : Option String := none
  endpoint : Option String := none
  env : Option (Dictionary String) := none
  mapDockerSocket : Option String := none
  options : Option String := none
  ports : Option (List String) := none
  volumes : Option (List String) := none
  mountReadOnly : Option Mounts := none
deriving DecidableEq, Repr

/-- A pool of machines. -/
structure Pool where
  name : Option String := none
  vmImage : Option String := none
  demands : Option (List String) := none
deriving DecidableEq, Repr

/-! ### Strategies -/

/-- A part of a rollout. -/
structure Hook where
  steps : Option (List Step) := none
  pool : Option Pool := none
deriving BEq, Repr

/-- The parts of a rollout. The number in parallel belongs to rolling rollouts, increments to canary ones. -/
structure Hooks where
  preDeploy : Option Hook := none
  deploy : Option Hook := none
  routeTraffic : Option Hook := none
  postRouteTraffic : Option Hook := none
  onFailure : Option Hook := none
  onSuccess : Option Hook := none
  maxParallel : Option String := none
  increments : Option (List String) := none
deriving BEq, Repr

/-- How a job is multiplied, or a deployment rolled out. -/
structure Strategy where
  parallel : Option String := none
  matrix : Option (Dictionary (Dictionary String)) := none
  matrixExpression : Option String := none
  maxParallel : Option String := none
  runOnce : Option Hooks := none
  rolling : Option Hooks := none
  canary : Option Hooks := none
deriving BEq, Repr

/-! ### Jobs and stages -/

/-- Repositories and pools that a job uses without naming them elsewhere. -/
structure Uses where
  repositories : Option (List String) := none
  pools : Option (List String) := none
deriving DecidableEq, Repr

/-- Where a deployment goes. -/
structure Environment where
  name : String
  resourceType : Option String := none
deriving DecidableEq, Repr

/-- A job, or a deployment. `workspace` says what is cleaned before it. -/
structure Job where
  name : Option String := none
  deployment : Bool := false
  displayName : Option String := none
  dependsOn : Option (List String) := none
  condition : Option String := none
  strategy : Option Strategy := none
  continueOnError : Option String := none
  container : Option Container := none
  timeoutInMinutes : Option String := none
  cancelTimeoutInMinutes : Option String := none
  vars : Option (List Variable) := none
  services : Option (Dictionary Container) := none
  steps : Option (List Step) := none
  templateContext : Option Template.Token := none
  environment : Option Environment := none
  pool : Option Pool := none
  uses : Option Uses := none
  workspace : Option String := none
deriving BEq, Repr

/-- A stage. One that is made of the jobs or steps at the root has no name until names are given. -/
structure Stage where
  name : Option String := none
  displayName : Option String := none
  dependsOn : Option (List String) := none
  condition : Option String := none
  vars : Option (List Variable) := none
  jobs : Option (List Job) := none
  pool : Option Pool := none
  lockBehavior : Option String := none
  templateContext : Option Template.Token := none
deriving BEq, Repr

/-! ### Pipelines -/

/-- The resources of a pipeline: containers, and other kinds as they are written. -/
structure Resources where
  containers : List Container := []
  other : Dictionary Template.Token := []
deriving BEq, Repr

/-- The container of an alias. -/
def Resources.container? (r : Resources) (aliasName : String) : Option Container :=
  r.containers.find? fun c => c.aliasName.any (Text.sameName · aliasName)

end PipelineExpansion.Pipeline

namespace PipelineExpansion

/-- A pipeline. Triggers and schedules are kept as they are written. -/
structure Pipeline where
  name : Option String := none
  vars : Option (List Pipeline.Variable) := none
  resources : Option Pipeline.Resources := none
  stages : Option (List Pipeline.Stage) := none
  pool : Option Pipeline.Pool := none
  appendCommitMessageToRunName : Option Bool := none
  lockBehavior : Option String := none
  trigger : Option Template.Token := none
  pr : Option Template.Token := none
  schedules : Option Template.Token := none
deriving BEq, Repr

end PipelineExpansion
