import PipelineExpansion.BuildProcess.Phase

/-!
# Documents of build processes

The documents of this form: processes, and templates of processes, phases, steps and variables. A process
is a template, a list of phases, or one phase at the root, and these exclude each other.
-/

namespace PipelineExpansion.BuildProcess

open Yaml (Reader Scalar Tree)

/-! ### Resources -/

/-- Reads a property of a resource. -/
def Resource.property (r : Resource) : Reader Resource := do
  let key ← Reader.scalar
  match key.text with
  | "type" => return { r with type := some (← Reader.nonEmpty) }
  | "data" => return { r with data := some (← Reader.mapping 1) }
  | _ => unexpectedProperty key

/-- Reads a resource, which begins with its name. -/
def readResource : Reader Resource := do
  let _ ← Reader.expect .mappingStart
  Reader.exact "name"
  let name ← Reader.nonEmpty
  Reader.untilEnd .mappingEnd { name } Resource.property

/-- Reads a list of resources. -/
def readResources : Reader (List Resource) := Reader.sequenceOf readResource

/-! ### Processes -/

/-- Reads a reference to a template of a process, which begins with its name. -/
def readTemplateReference : Reader PhasesReference := do
  let _ ← Reader.expect .mappingStart
  Reader.exact "name"
  readPhasesReference

/-- The key of what a process has that one phase at the root would have, if it has any of it. -/
def phaseKey? (p : BuildProcess) : Option String :=
  if p.vars.isSome then some "variables"
  else if p.steps.isSome then some "steps"
  else if !p.properties.dependsOn.isEmpty then some "dependsOn"
  else if p.properties.condition.isSome then some "condition"
  else if p.properties.continueOnError.isSome then some "continueOnError"
  else if p.properties.enableAccessToken.isSome then some "enableAccessToken"
  else p.properties.target.map Target.keyword

/-- The key of what a process is made of instead of one phase at the root, if it is. -/
def compositeKey? (p : BuildProcess) : Option String :=
  if p.template.isSome then some "template" else if p.phases.isSome then some "phases" else none

/-- Refuses a key that is excluded by another. -/
def refuseBeside (present : Option String) (key : Scalar) : Reader Unit :=
  Reader.refuseAfter present.isSome (present.getD "") key.text key.span

/-- The fault of a property of a document that is not known. -/
def unexpectedIn {α : Type} (document : String) (key : Scalar) : Reader α :=
  Reader.failAt (some key.span) ("Unexpected " ++ document ++ " property: '" ++ key.text ++ "'")

/-- Reads a property of a process. -/
def property (p : BuildProcess) : Reader BuildProcess := do
  let key ← Reader.scalar
  match key.text with
  | "name" => return { p with name := some (← Reader.scalar).text }
  | "resources" => return { p with resources := some (← readResources) }
  | "template" => do
    refuseBeside (p.phases.map fun _ => "phases") key
    refuseBeside (phaseKey? p) key
    return { p with template := some (← readTemplateReference) }
  | "phases" => do
    refuseBeside (p.template.map fun _ => "template") key
    refuseBeside (phaseKey? p) key
    return { p with phases := some (← readPhases) }
  | "variables" => do
    refuseBeside (compositeKey? p) key
    return { p with vars := some (← readVariables) }
  | "steps" => do
    refuseBeside (compositeKey? p) key
    return { p with steps := some (← readSteps) }
  | _ => do
    refuseBeside (compositeKey? p) key
    match ← p.properties.read? key with
    | some properties => return { p with properties }
    | none => unexpectedIn "process" key

/-- Reads a process. -/
def read : Reader BuildProcess := Reader.mappingOf {} property

/-! ### Templates -/

/-- Reads a property of a template of a process. -/
def ProcessTemplate.property (t : ProcessTemplate) : Reader ProcessTemplate := do
  let key ← Reader.scalar
  match key.text with
  | "resources" => return { t with resources := some (← readResources) }
  | "phases" => do
    refuseBeside (t.steps.map fun _ => "steps") key
    return { t with phases := some (← readPhases) }
  | "steps" => do
    refuseBeside (t.phases.map fun _ => "phases") key
    return { t with steps := some (← readSteps) }
  | _ => unexpectedIn "process" key

/-- Reads a template of a process. -/
def readProcessTemplate : Reader ProcessTemplate := Reader.mappingOf {} ProcessTemplate.property

/-- Reads a property of a template of phases. -/
def PhasesTemplate.property (t : PhasesTemplate) : Reader PhasesTemplate := do
  let key ← Reader.scalar
  match key.text with
  | "phases" => do
    refuseBeside (t.steps.map fun _ => "steps") key
    return { t with phases := some (← readSimplePhases) }
  | "steps" => do
    refuseBeside (t.phases.map fun _ => "phases") key
    return { t with steps := some (← readSteps) }
  | _ => unexpectedIn "process" key

/-- Reads a template of phases. -/
def readPhasesTemplate : Reader PhasesTemplate := Reader.mappingOf {} PhasesTemplate.property

/-- Reads a template of steps. -/
def readStepsTemplate : Reader StepsTemplate :=
  Reader.mappingOf {} fun (_ : StepsTemplate) => do
    let key ← Reader.scalar
    if key.text = "steps" then return { steps := ← readSimpleSteps }
    else unexpectedIn "steps template" key

/-- Reads a template of variables. -/
def readVariablesTemplate : Reader VariablesTemplate :=
  Reader.mappingOf {} fun (_ : VariablesTemplate) => do
    let key ← Reader.scalar
    if key.text = "variables" then return { vars := ← readSimpleVariables }
    else unexpectedIn "variables template" key

/-! ### Writing -/

/-- An entry for a value, or none. -/
def treeEntry {α : Type} (name : String) (tree : α → Tree) : Option α → List (String × Tree)
  | some a => [(name, tree a)]
  | none => []

/-- A resource as a tree. -/
def Resource.toTree (r : Resource) : Tree :=
  .ofEntries ([("name", .text r.name)] ++ textEntry "type" r.type
    ++ treeEntry "data" (fun data => .ofGraph (.mapping data)) r.data)

/-- Resources as a tree. -/
def resourcesTree (resources : List Resource) : Tree := .sequence (resources.map Resource.toTree)

/-- A reference to a template of a process as a tree. -/
def templateReferenceTree (r : PhasesReference) : Tree :=
  .ofEntries ([("name", .text r.path)] ++ r.bodyEntries)

/-- A process as a tree. -/
def toTree (p : BuildProcess) : Tree :=
  .ofEntries (filledEntry "name" p.name
    ++ treeEntry "resources" resourcesTree p.resources
    ++ treeEntry "template" templateReferenceTree p.template
    ++ treeEntry "phases" phasesTree p.phases
    ++ p.properties.toEntries
    ++ treeEntry "variables" variablesTree p.vars
    ++ treeEntry "steps" stepsTree p.steps)

/-- A template of a process as a tree. -/
def ProcessTemplate.toTree (t : ProcessTemplate) : Tree :=
  .ofEntries (treeEntry "resources" resourcesTree t.resources
    ++ treeEntry "phases" phasesTree t.phases
    ++ treeEntry "steps" stepsTree t.steps)

/-- A template of phases as a tree. -/
def PhasesTemplate.toTree (t : PhasesTemplate) : Tree :=
  .ofEntries (treeEntry "phases" (fun phases => phasesTree (phases.map .phase)) t.phases
    ++ treeEntry "steps" stepsTree t.steps)

/-- A template of steps as a tree. -/
def StepsTemplate.toTree (t : StepsTemplate) : Tree :=
  .ofEntries (if t.steps.isEmpty then [] else [("steps", simpleStepsTree t.steps)])

/-- A template of variables as a tree. -/
def VariablesTemplate.toTree (t : VariablesTemplate) : Tree :=
  .ofEntries (if t.vars.isEmpty then [] else [("variables", variablesTree (t.vars.map .value))])

end PipelineExpansion.BuildProcess
