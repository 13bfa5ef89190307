import PipelineExpansion.Pipeline.Stage

/-!
# Composing pipelines

The root of a pipeline holds stages, or jobs or steps that make one stage. What belongs to that job or
stage stands at the root too. A pipeline that extends another has the stages of that one; resources are
merged, and names of container resources are replaced by the resources.
-/

namespace PipelineExpansion.Pipeline

open Template (Context Entry Key Resolve Token)

/-! ### Resources -/

/-- The container resource of a token; the value of the first entry is its alias. -/
def resourceContainer (t : Token) : Except Diagnostic Container := do
  match ← t.expectMapping "resources.containers" with
  | [] => throw (t.fault "A container resource requires an alias")
  | (_, aliasName) :: _ =>
    let aliasName ← aliasName.expectNonEmpty "container"
    return { ← Container.ofToken? t with aliasName := some aliasName }

/-- Reads a kind of resources. -/
def Resources.read (r : Resources) (e : Entry) : Except Diagnostic Resources :=
  if e.1.name = "containers" then do
    return { r with containers := ← (← e.2.expectSequence "resources.containers").mapM resourceContainer }
  else .ok { r with other := r.other.put e.1.name e.2 }

/-- The resources of a token. -/
def Resources.ofToken? (t : Token) : Except Diagnostic Resources := do
  (← t.expectMapping "resources").foldlM Resources.read {}

/-- The alias and the descriptor of a repository resource; one without an alias has none. -/
def repositoryAlias (t : Token) : Except Diagnostic (Option (String × String)) :=
  match t.get? "repository" with
  | none => .ok none
  | some aliasName => do
    let aliasName ← aliasName.expectNonEmpty "repository"
    let name ←
      match t.get? "name" with
      | some name => name.expectNonEmpty "name"
      | none => .ok aliasName
    match t.get? "ref" with
    | some revision =>
      if revision.isNull then return some (aliasName, name)
      else return some (aliasName, name ++ "@" ++ (← revision.expectText "ref"))
    | none => return some (aliasName, name)

/-- The aliases and descriptors of the repository resources of a document. -/
def repositoryAliases (t : Token) : Except Diagnostic (List (String × String)) :=
  match (t.get? "resources").bind (·.get? "repositories") with
  | none => .ok []
  | some repositories => do
    let items ← repositories.expectSequence "resources.repositories"
    return (← items.mapM repositoryAlias).filterMap id

/-! ### Extending -/

/-- The properties of an `extends` section. -/
structure Extension where
  template : Option String := none
  parameters : Option Token := none

/-- Reads a property of an `extends` section. -/
def Extension.read (x : Extension) (e : Entry) : Except Diagnostic Extension :=
  match e.1.name with
  | "template" => do return { x with template := some (← e.2.expectNonEmpty "template") }
  | "parameters" => do
    let _ ← e.2.expectMapping "parameters"
    return { x with parameters := some e.2 }
  | other => .error (e.1.fault ("Unexpected yaml key " ++ other ++ " expected template"))

/-- Checks the order of the keys of an `extends` section. -/
def checkExtensionKeys : List Entry → Except Diagnostic Unit
  | [(first, _), (second, _)] =>
    if first.name ≠ "template" then
      .error (first.fault ("Unexpected yaml key " ++ first.name ++ " expected template"))
    else if second.name ≠ "parameters" then
      .error (second.fault ("Unexpected yaml key " ++ second.name ++ " expected parameters"))
    else .ok ()
  | _ :: _ :: (third, _) :: _ =>
    .error (third.fault ("Unexpected yaml keys " ++ third.name ++ " after template reference"))
  | _ => .ok ()

/-- The template that an `extends` section refers to, and its parameters. -/
def extensionOf (t : Token) : Except Diagnostic (String × Option Token) := do
  let entries ← t.expectMapping "extends"
  checkExtensionKeys entries
  let x ← entries.foldlM Extension.read {}
  match x.template with
  | some template => return (template, x.parameters)
  | none => throw (t.fault "'extends' requires a 'template'")

/-- Adds a container resource, in place of those with its alias. -/
def addContainer (containers : List Container) (c : Container) : List Container :=
  let aliasName := c.aliasName.getD ""
  containers.filter (fun other => !other.aliasName.any (Text.sameName · aliasName)) ++ [c]

/-- Adds the resources of a kind; both have to be sequences where the kind is there already. -/
def addOther (other : Dictionary Token) (entry : String × Token) :
    Except Diagnostic (Dictionary Token) :=
  let (kind, added) := entry
  match other.find? kind with
  | none => .ok (other.put kind added)
  | some present => do
    let what := "resources." ++ kind
    let items ← present.expectSequence what
    return other.put kind (.sequence present.origin (items ++ (← added.expectSequence what)))

/-- Merges the resources of a pipeline with those of the one it extends. -/
def mergeResources (own base : Resources) : Except Diagnostic Resources := do
  return {
    containers := base.containers.foldl addContainer own.containers
    other := ← base.other.foldlM addOther own.other }

/-- Merges a pipeline with the one it extends: the stages are those of the latter. -/
def merge (p base : Pipeline) : Except Diagnostic Pipeline := do
  let resources ←
    match base.resources with
    | none => .ok p.resources
    | some r => (mergeResources (p.resources.getD {}) r).map some
  match p.vars, base.vars with
  | some _, some _ => throw (.meaning "'variables' is already defined")
  | own, inherited => return { p with stages := base.stages, resources, vars := inherited <|> own }

/-! ### References to containers -/

/-- A container, or the resource that it names. -/
def Resources.resolve (r : Resources) (c : Container) : Container :=
  if c.isReference then (r.container? (c.image.getD "")).getD c else c

/-- A job with the resources in place of their names. -/
def Job.resolveContainers (r : Resources) (j : Job) : Job :=
  { j with
    container := j.container.map r.resolve
    services := j.services.map fun services => services.map fun (name, s) => (name, r.resolve s) }

/-- A pipeline with the container resources in place of their names. -/
def resolveContainers (p : Pipeline) : Pipeline :=
  match p.resources with
  | none => p
  | some r =>
    { p with stages := p.stages.map fun stages => stages.map fun s =>
        { s with jobs := s.jobs.map fun jobs => jobs.map (Job.resolveContainers r) } }

/-! ### Root documents -/

/-- What the entries at the root that are no properties of a pipeline belong to. -/
inductive Implicit where
  | nothing
  | job
  | stage
deriving DecidableEq, Repr

/-- A pipeline that is being read: the pipeline it extends, and the entries that are left over. -/
structure Draft where
  pipeline : Pipeline := {}
  base : Option Pipeline := none
  implicit : Implicit := .nothing
  left : List Entry := []

/-- Reads a property of a pipeline. -/
def Draft.read (refs : References) (c : Context) (d : Draft) (e : Entry) : Resolve Draft :=
  let (key, value) := e
  let update (p : Pipeline) : Draft := { d with pipeline := p }
  match key.name with
  | "name" => do
    return update { d.pipeline with name := ← Resolve.ofExcept (nameOf? value "name") }
  | "parameters" => return d
  | "variables" => do
    let vars ← addVariables refs c [] value
    return update { d.pipeline with vars := some vars }
  | "extends" => do
    let (template, parameters) ← Resolve.ofExcept (extensionOf value)
    return { d with base := some (← refs.pipeline c template parameters) }
  | "stages" => do
    let stages ← stageList refs c value
    return update { d.pipeline with stages := some stages }
  | "steps" => return { d with left := d.left ++ [e], implicit := .job }
  | "jobs" =>
    return { d with left := d.left ++ [e], implicit := if d.implicit = .job then .job else .stage }
  | "resources" => do
    return update { d.pipeline with resources := some (← Resolve.ofExcept (Resources.ofToken? value)) }
  | "pool" => do
    return update { d.pipeline with pool := some (← Resolve.ofExcept (Pool.ofToken? value)) }
  | "appendCommitMessageToRunName" => do
    let append ← Resolve.ofExcept (value.expectBool "appendCommitMessageToRunName")
    return update { d.pipeline with appendCommitMessageToRunName := some append }
  | "lockBehavior" => do
    let behavior ← Resolve.ofExcept (value.expectText "lockBehavior")
    return update { d.pipeline with lockBehavior := some behavior }
  | "trigger" => return update { d.pipeline with trigger := some value }
  | "pr" => return update { d.pipeline with pr := some value }
  | "schedules" => return update { d.pipeline with schedules := some value }
  | _ => return { d with left := d.left ++ [e] }

/-- The stages that the left-over entries make, if they make any: a job in a stage, or a stage, without a
name. -/
def Draft.implicitStages (refs : References) (c : Context) (d : Draft) (o : Template.Origin) :
    Resolve (Option (List Stage)) :=
  let rest := Token.mapping o d.left
  match d.implicit with
  | .nothing => return d.pipeline.stages
  | .job => do
    let job ← Job.ofToken? refs c rest true
    return some [{ jobs := some [{ job with name := none }] }]
  | .stage => do
    let stage ← Stage.ofToken? refs c rest true
    return some [{ stage with name := none }]

/-- The pipeline of an evaluated root document. -/
def ofToken? (refs : References) (c : Context) (t : Token) : Resolve Pipeline := do
  let entries ← Resolve.ofExcept (t.expectMapping "pipeline-root")
  let d ← entries.foldlM (Draft.read refs c) {}
  let p := { d.pipeline with stages := ← d.implicitStages refs c t.origin }
  match d.base with
  | none => return p.resolveContainers
  | some base => return (← Resolve.ofExcept (p.merge base)).resolveContainers

end PipelineExpansion.Pipeline
