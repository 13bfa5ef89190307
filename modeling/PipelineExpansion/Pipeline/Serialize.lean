import PipelineExpansion.Pipeline.Model

/-!
# Pipelines as JSON

Every part of a pipeline as JSON, with its properties in a fixed order; those without a value are left out.
The same value is what a pipeline is written as in YAML.
-/

namespace PipelineExpansion.Pipeline

/-- A property with a value, or none. -/
def property {α : Type} (name : String) (json : α → Json) : Option α → List (String × Json)
  | some a => [(name, json a)]
  | none => []

/-- Texts as JSON. -/
def textsJson (texts : List String) : Json := .array (texts.map .text)

/-- A dictionary as JSON. -/
def dictionaryJson {α : Type} (json : α → Json) (d : Dictionary α) : Json :=
  .object (d.map fun (k, v) => (k, json v))

/-- A list as JSON. -/
def listJson {α : Type} (json : α → Json) (items : List α) : Json := .array (items.map json)

/-- A variable as JSON. -/
def Variable.toJson : Variable → Json
  | value name text readonly =>
    .object ([("name", .text name), ("value", .text text)]
      ++ if readonly then [("readonly", .boolean true)] else [])
  | group name => .object [("group", .text name)]

/-- A reference to a task as JSON. -/
def TaskReference.toJson (r : TaskReference) : Json :=
  .object (property "id" .text (r.identity.map (·.id))
    ++ property "name" .text (r.identity.map (·.name))
    ++ property "version" .text (r.identity.map (·.version))
    ++ [("rawNameAndVersion", .text r.nameAndVersion)])

/-- A target as JSON. -/
def Target.toJson (t : Target) : Json :=
  .object (property "container" .text t.container
    ++ property "commands" .text t.commands
    ++ property "settableVariables" textsJson t.settableVariables)

/-- A step as JSON. -/
def Step.toJson (s : Step) : Json :=
  .object ([("reference", s.reference.toJson)]
    ++ property "name" .text s.name
    ++ property "displayName" .text s.displayName
    ++ property "condition" .text s.condition
    ++ property "continueOnError" .boolean s.continueOnError
    ++ property "enabled" .boolean s.enabled
    ++ property "retryCountOnTaskFailure" .whole s.retryCountOnTaskFailure
    ++ property "timeoutInMinutes" .whole s.timeoutInMinutes
    ++ property "target" Target.toJson s.target
    ++ (if s.env.isEmpty then [] else [("env", dictionaryJson .text s.env)])
    ++ (if s.inputs.size = 0 then [] else [("inputs", dictionaryJson .text s.inputs.toList)]))

/-- Mounts as JSON. -/
def Mounts.toJson (m : Mounts) : Json :=
  .object (property "work" .text m.work
    ++ property "externals" .text m.externals
    ++ property "tools" .text m.tools
    ++ property "tasks" .text m.tasks)

/-- A container as JSON. -/
def Container.toJson (c : Container) : Json :=
  .object (property "container" .text c.aliasName
    ++ property "image" .text c.image
    ++ property "endpoint" .text c.endpoint
    ++ property "env" (dictionaryJson .text) c.env
    ++ property "mapDockerSocket" .text c.mapDockerSocket
    ++ property "options" .text c.options
    ++ property "ports" textsJson c.ports
    ++ property "volumes" textsJson c.volumes
    ++ property "mountReadOnly" Mounts.toJson c.mountReadOnly)

/-- A pool as JSON. -/
def Pool.toJson (p : Pool) : Json :=
  .object (property "name" .text p.name
    ++ property "vmImage" .text p.vmImage
    ++ property "demands" textsJson p.demands)

/-- A hook as JSON. -/
def Hook.toJson (h : Hook) : Json :=
  .object (property "steps" (listJson Step.toJson) h.steps ++ property "pool" Pool.toJson h.pool)

/-- Hooks as JSON. -/
def Hooks.toJson (h : Hooks) : Json :=
  .object (property "preDeploy" Hook.toJson h.preDeploy
    ++ property "deploy" Hook.toJson h.deploy
    ++ property "routeTraffic" Hook.toJson h.routeTraffic
    ++ property "postRouteTraffic" Hook.toJson h.postRouteTraffic
    ++ property "onFailure" Hook.toJson h.onFailure
    ++ property "onSuccess" Hook.toJson h.onSuccess
    ++ property "maxParallel" .text h.maxParallel
    ++ property "increments" textsJson h.increments)

/-- A strategy as JSON. -/
def Strategy.toJson (s : Strategy) : Json :=
  .object (property "parallel" .text s.parallel
    ++ property "matrix" (dictionaryJson (dictionaryJson .text)) s.matrix
    ++ property "matrixExpression" .text s.matrixExpression
    ++ property "maxParallel" .text s.maxParallel
    ++ property "runOnce" Hooks.toJson s.runOnce
    ++ property "rolling" Hooks.toJson s.rolling
    ++ property "canary" Hooks.toJson s.canary)

/-- Uses as JSON. -/
def Uses.toJson (u : Uses) : Json :=
  .object (property "repositories" textsJson u.repositories ++ property "pools" textsJson u.pools)

/-- An environment as JSON. -/
def Environment.toJson (e : Environment) : Json :=
  .object ([("name", .text e.name)] ++ property "resourceType" .text e.resourceType)

/-- A job as JSON. -/
def Job.toJson (j : Job) : Json :=
  .object (property "name" .text j.name
    ++ (if j.deployment then [("deployment", .boolean true)] else [])
    ++ property "displayName" .text j.displayName
    ++ property "dependsOn" textsJson j.dependsOn
    ++ property "condition" .text j.condition
    ++ property "strategy" Strategy.toJson j.strategy
    ++ property "continueOnError" .text j.continueOnError
    ++ property "container" Container.toJson j.container
    ++ property "timeoutInMinutes" .text j.timeoutInMinutes
    ++ property "cancelTimeoutInMinutes" .text j.cancelTimeoutInMinutes
    ++ property "variables" (listJson Variable.toJson) j.vars
    ++ property "services" (dictionaryJson Container.toJson) j.services
    ++ property "steps" (listJson Step.toJson) j.steps
    ++ property "templateContext" Template.Token.toJson j.templateContext
    ++ property "environment" Environment.toJson j.environment
    ++ property "pool" Pool.toJson j.pool
    ++ property "uses" Uses.toJson j.uses
    ++ property "workspace" (fun clean => .object [("clean", .text clean)]) j.workspace)

/-- A stage as JSON. -/
def Stage.toJson (s : Stage) : Json :=
  .object (property "stage" .text s.name
    ++ property "displayName" .text s.displayName
    ++ property "dependsOn" textsJson s.dependsOn
    ++ property "condition" .text s.condition
    ++ property "variables" (listJson Variable.toJson) s.vars
    ++ property "jobs" (listJson Job.toJson) s.jobs
    ++ property "pool" Pool.toJson s.pool
    ++ property "lockBehavior" .text s.lockBehavior
    ++ property "templateContext" Template.Token.toJson s.templateContext)

/-- Resources as JSON. -/
def Resources.toJson (r : Resources) : Json :=
  .object ((if r.containers.isEmpty then [] else [("containers", listJson Container.toJson r.containers)])
    ++ r.other.map fun (kind, t) => (kind, t.toJson))

/-- A pipeline as JSON. -/
def toJson (p : Pipeline) : Json :=
  .object (property "name" .text p.name
    ++ property "variables" (listJson Variable.toJson) p.vars
    ++ property "resources" Resources.toJson p.resources
    ++ property "stages" (listJson Stage.toJson) p.stages
    ++ property "pool" Pool.toJson p.pool
    ++ property "appendCommitMessageToRunName" .boolean p.appendCommitMessageToRunName
    ++ property "lockBehavior" .text p.lockBehavior
    ++ property "trigger" Template.Token.toJson p.trigger
    ++ property "pr" Template.Token.toJson p.pr
    ++ property "schedules" Template.Token.toJson p.schedules)

end PipelineExpansion.Pipeline
