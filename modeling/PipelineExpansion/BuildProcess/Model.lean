import PipelineExpansion.Task.Inputs
import PipelineExpansion.Yaml.Graph

/-!
# Build processes

A build process is the older form of a pipeline: phases with variables and steps, or one phase that is written
at the root. Steps, variables, phases and whole processes may be taken from templates, whose step groups
can be replaced where they are used.

What a group or an override holds are simple steps: they cannot be groups or templates themselves.
-/

namespace PipelineExpansion.BuildProcess

open Yaml (Graph)

/-- Values that are handed to a template. -/
abbrev Parameters := Dictionary Graph

/-! ### Steps -/

/-- A step that runs a task. -/
structure TaskStep where
  task : String
  version : String
  name : Option String := none
  enabled : Bool := true
  condition : Option String := none
  continueOnError : Bool := false
  timeoutInMinutes : Int := 0
  env : Dictionary String := []
  inputs : Task.Inputs := ∅
deriving BEq, Repr

/-- A step that checks out a repository, or nothing. -/
structure CheckoutStep where
  repository : String
  clean : Option String := none
  fetchDepth : Option String := none
  lfs : Option String := none
deriving DecidableEq, Repr

/-- A step that stands for itself. -/
inductive SimpleStep where
  | task (t : TaskStep)
  | checkout (c : CheckoutStep)
deriving BEq, Repr

/-- The steps that take the place of groups, by the names of the groups. -/
abbrev Overrides := Dictionary (List SimpleStep)

/-- A reference to a template of steps. -/
structure StepsReference where
  path : String
  parameters : Parameters := []
  overrides : Overrides := []
deriving BEq, Repr

/-- A step, a group of steps, or a template that steps are taken from. -/
inductive Step where
  | simple (s : SimpleStep)
  | group (name : String) (steps : List SimpleStep)
  | template (r : StepsReference)
deriving BEq, Repr

/-! ### Variables -/

/-- A variable. One that is verbatim is not expanded further. -/
structure ValueVariable where
  name : String
  value : Option String := none
  verbatim : Bool := false
deriving DecidableEq, Repr

/-- A variable, or a template that variables are taken from. -/
inductive Variable where
  | value (v : ValueVariable)
  | template (path : String) (parameters : Parameters)
deriving BEq, Repr

/-! ### Phases -/

/-- The variables of each leg of a matrix. -/
abbrev Matrix := Dictionary (Dictionary String)

/-- A phase that runs on machines of a queue. -/
structure QueueTarget where
  name : Option String := none
  continueOnError : Option String := none
  demands : List String := []
  matrix : Matrix := []
  parallel : Option String := none
  timeoutInMinutes : Option String := none
deriving DecidableEq, Repr

/-- A phase that runs on the machines of a deployment group. -/
structure DeploymentTarget where
  group : Option String := none
  continueOnError : Option String := none
  healthOption : Option String := none
  percentage : Option String := none
  tags : List String := []
  timeoutInMinutes : Option String := none
deriving DecidableEq, Repr

/-- A phase that runs on the server. -/
structure ServerTarget where
  continueOnError : Option String := none
  matrix : Matrix := []
  parallel : Option String := none
  timeoutInMinutes : Option String := none
deriving DecidableEq, Repr

/-- Where a phase runs. -/
inductive Target where
  | queue (t : QueueTarget)
  | deployment (t : DeploymentTarget)
  | server (t : ServerTarget)
deriving DecidableEq, Repr

/-- The key of a target. -/
def Target.keyword : Target → String
  | queue _ => "queue"
  | deployment _ => "deployment"
  | server _ => "server"

/-- The properties of a phase, which may also stand at the root of a process. -/
structure Properties where
  dependsOn : List String := []
  condition : Option String := none
  continueOnError : Option String := none
  enableAccessToken : Option String := none
  target : Option Target := none
deriving DecidableEq, Repr

/-- A phase. -/
structure Phase where
  name : Option String := none
  properties : Properties := {}
  vars : List Variable := []
  steps : List Step := []
deriving BEq, Repr

/-- Overrides for the phase of a name. -/
structure Selector where
  name : String
  overrides : Overrides := []
deriving BEq, Repr

/-- A reference to a template of phases or of a process. -/
structure PhasesReference where
  path : String
  parameters : Parameters := []
  overrides : Overrides := []
  selectors : List Selector := []
deriving BEq, Repr

/-- A phase, or a template that phases are taken from. -/
inductive PhaseEntry where
  | phase (p : Phase)
  | template (r : PhasesReference)
deriving BEq, Repr

/-! ### Documents -/

/-- A resource of a process. -/
structure Resource where
  name : String
  type : Option String := none
  data : Option (Dictionary Graph) := none
deriving BEq, Repr

/-- A template of variables. -/
structure VariablesTemplate where
  vars : List ValueVariable := []
deriving DecidableEq, Repr

/-- A template of steps. -/
structure StepsTemplate where
  steps : List SimpleStep := []
deriving BEq, Repr

/-- A template of phases, which may be one phase without a name. -/
structure PhasesTemplate where
  phases : Option (List Phase) := none
  steps : Option (List Step) := none
deriving BEq, Repr

/-- A template of a process. -/
structure ProcessTemplate where
  resources : Option (List Resource) := none
  phases : Option (List PhaseEntry) := none
  steps : Option (List Step) := none
deriving BEq, Repr

end PipelineExpansion.BuildProcess

namespace PipelineExpansion

/-- A process: a template, phases, or the properties, variables and steps of one phase. -/
structure BuildProcess where
  name : Option String := none
  resources : Option (List BuildProcess.Resource) := none
  template : Option BuildProcess.PhasesReference := none
  phases : Option (List BuildProcess.PhaseEntry) := none
  properties : BuildProcess.Properties := {}
  vars : Option (List BuildProcess.Variable) := none
  steps : Option (List BuildProcess.Step) := none
deriving BEq, Repr

end PipelineExpansion
