import PipelineExpansion.BuildProcess.Variable
import PipelineExpansion.Text.Lower

/-!
# Phases

A phase has properties, variables and steps. It runs on a queue, on a deployment group or on the server:
one of these at most, each with a short form. An entry of a list of phases may also be a template.
-/

namespace PipelineExpansion.BuildProcess

open Yaml (Reader Scalar Tree)

/-! ### Targets -/

/-- Reads one text or a sequence of texts; an empty text stands for none. -/
def readTexts : Reader (List String) := do
  if ← Reader.scalarComes then
    let s ← Reader.scalar
    return if s.text.isEmpty || s.isNull then [] else [s.text]
  else Reader.texts

/-- Reads a matrix. The names of its legs differ by more than case. -/
def readMatrix : Reader Matrix :=
  Reader.mappingOf [] fun (matrix : Matrix) => do
    let span ← Reader.currentSpan
    let leg ← Reader.nonEmpty
    if matrix.names.any (Text.sameName · leg) then
      Reader.failAt span ("Duplicate matrix leg '" ++ leg ++ "'")
    return matrix.put leg (← Reader.textMap .exact)

/-- Reads a property of a queue. `given` is the one of matrix and parallel that was given. -/
def QueueTarget.property (state : QueueTarget × Option String) :
    Reader (QueueTarget × Option String) := do
  let (t, given) := state
  let key ← Reader.scalar
  let claim : Reader Unit := Reader.refuseAfter given.isSome (given.getD "") key.text key.span
  match key.text with
  | "name" => return ({ t with name := some (← Reader.nonEmpty) }, given)
  | "continueOnError" => return ({ t with continueOnError := some (← Reader.nonEmpty) }, given)
  | "demands" => return ({ t with demands := ← readTexts }, given)
  | "matrix" => do
    claim
    return ({ t with matrix := ← readMatrix }, some "matrix")
  | "parallel" => do
    claim
    return ({ t with parallel := some (← Reader.nonEmpty) }, some "parallel")
  | "timeoutInMinutes" => return ({ t with timeoutInMinutes := some (← Reader.nonEmpty) }, given)
  | _ => unexpectedProperty key

/-- Reads a queue: its name, or a mapping. -/
def readQueue : Reader QueueTarget := do
  if ← Reader.scalarComes then return { name := some (← Reader.nonEmpty) }
  else return (← Reader.mappingOf ({}, none) QueueTarget.property).1

/-- Reads a property of a deployment group. -/
def DeploymentTarget.property (t : DeploymentTarget) : Reader DeploymentTarget := do
  let key ← Reader.scalar
  match key.text with
  | "group" => return { t with group := some (← Reader.nonEmpty) }
  | "continueOnError" => return { t with continueOnError := some (← Reader.nonEmpty) }
  | "healthOption" => return { t with healthOption := some (← Reader.nonEmpty) }
  | "percentage" => return { t with percentage := some (← Reader.nonEmpty) }
  | "tags" => return { t with tags := ← readTexts }
  | "timeoutInMinutes" => return { t with timeoutInMinutes := some (← Reader.nonEmpty) }
  | _ => unexpectedProperty key

/-- Reads a deployment group: its name, or a mapping. -/
def readDeployment : Reader DeploymentTarget := do
  if ← Reader.scalarComes then return { group := some (← Reader.nonEmpty) }
  else Reader.mappingOf {} DeploymentTarget.property

/-- Reads a property of the server. -/
def ServerTarget.property (t : ServerTarget) : Reader ServerTarget := do
  let key ← Reader.scalar
  match key.text with
  | "continueOnError" => return { t with continueOnError := some (← Reader.nonEmpty) }
  | "matrix" => return { t with matrix := ← readMatrix }
  | "parallel" => return { t with parallel := some (← Reader.nonEmpty) }
  | "timeoutInMinutes" => return { t with timeoutInMinutes := some (← Reader.nonEmpty) }
  | _ => unexpectedProperty key

/-- Reads the server: whether it is the target, or a mapping. -/
def readServer : Reader (Option ServerTarget) := do
  if ← Reader.scalarComes then return if ← Reader.boolean then some {} else none
  else return some (← Reader.mappingOf {} ServerTarget.property)

/-! ### Properties -/

/-- Reads a property of a phase; none for a key that is no such property. -/
def Properties.read? (p : Properties) (key : Scalar) : Reader (Option Properties) := do
  let claim : Reader Unit :=
    Reader.refuseAfter p.target.isSome ((p.target.map Target.keyword).getD "") key.text key.span
  match key.text with
  | "dependsOn" => return some { p with dependsOn := ← readTexts }
  | "condition" => return some { p with condition := some (← Reader.nonEmpty) }
  | "continueOnError" => return some { p with continueOnError := some (← Reader.nonEmpty) }
  | "enableAccessToken" => return some { p with enableAccessToken := some (← Reader.nonEmpty) }
  | "queue" => do
    claim
    return some { p with target := some (.queue (← readQueue)) }
  | "deployment" => do
    claim
    return some { p with target := some (.deployment (← readDeployment)) }
  | "server" => do
    claim
    return some { p with target := (← readServer).map .server }
  | _ => return none

/-! ### References to templates -/

/-- Reads overrides for a phase. -/
def readSelector : Reader Selector := do
  let _ ← Reader.expect .mappingStart
  Reader.exact "name"
  let name ← Reader.nonEmpty
  let overrides ← Reader.untilEnd .mappingEnd [] fun _ => do
    let key ← Reader.scalar
    if key.text = "steps" then readOverrides else unexpectedProperty key
  return { name, overrides }

/-- Reads a property of a reference to a template of phases. -/
def PhasesReference.property (r : PhasesReference) : Reader PhasesReference := do
  let key ← Reader.scalar
  match key.text with
  | "parameters" => return { r with parameters := ← Reader.mapping 1 }
  | "steps" => return { r with overrides := ← readOverrides }
  | "phases" => return { r with selectors := ← Reader.sequenceOf readSelector }
  | _ => unexpectedProperty key

/-- Reads the rest of a reference to a template of phases, behind its key. -/
def readPhasesReference : Reader PhasesReference := do
  let path ← Reader.nonEmpty
  Reader.untilEnd .mappingEnd { path } PhasesReference.property

/-! ### Entries -/

/-- Reads a property of a phase, its variables or its steps. -/
def Phase.property (p : Phase) : Reader Phase := do
  let key ← Reader.scalar
  match ← p.properties.read? key with
  | some properties => return { p with properties }
  | none =>
    match key.text with
    | "variables" => return { p with vars := ← readVariables }
    | "steps" => return { p with steps := ← readSteps }
    | other => Reader.failAt (some key.span) ("Unexpected phase property: '" ++ other ++ "'")

/-- Whether a first key is that of a phase. -/
def beginsPhase (first : Scalar) : Bool := ["phase", "name", "deployment"].contains first.text

/-- Reads the rest of a phase. -/
def readPhaseBody : Reader Phase := do
  let name ← Reader.nonEmpty
  Reader.untilEnd .mappingEnd { name := some name } Phase.property

/-- The fault of an entry that is not known. -/
def unknownPhase {α : Type} (first : Scalar) : Reader α :=
  Reader.failAt (some first.span) ("Unknown phase type: '" ++ first.text ++ "'")

/-- Reads an entry of a list of phases where templates may not be. -/
def readSimplePhase : Reader Phase := do
  let _ ← Reader.expect .mappingStart
  let first ← Reader.scalar
  if beginsPhase first then readPhaseBody
  else if first.text = "template" then
    Reader.failAt (some first.span) "A phases template cannot reference another phases 'template'."
  else unknownPhase first

/-- Reads an entry of a list of phases. -/
def readPhase : Reader PhaseEntry := do
  let _ ← Reader.expect .mappingStart
  let first ← Reader.scalar
  if beginsPhase first then return .phase (← readPhaseBody)
  else if first.text = "template" then return .template (← readPhasesReference)
  else unknownPhase first

/-- Reads a list of phases without templates. -/
def readSimplePhases : Reader (List Phase) := Reader.sequenceOf readSimplePhase

/-- Reads a list of phases. -/
def readPhases : Reader (List PhaseEntry) := Reader.sequenceOf readPhase

/-! ### Writing -/

/-- An entry for texts: one text as it is, more as a sequence. -/
def textsEntry (name : String) : List String → List (String × Tree)
  | [] => []
  | [s] => [(name, .text s)]
  | items => [(name, .sequence (items.map .text))]

/-- The entry for a matrix, its legs in the order of their names in lower case. -/
def matrixEntry (matrix : Matrix) : List (String × Tree) :=
  if matrix.isEmpty then []
  else
    let legs := matrix.mergeSort fun a b => decide (Text.lower a.1 ≤ Text.lower b.1)
    [("matrix", .ofEntries (legs.map fun (name, vars) => (name, .ofTexts vars)))]

/-- A queue as a mapping. -/
def QueueTarget.toMapping (t : QueueTarget) : Tree :=
  .ofEntries (filledEntry "name" t.name
    ++ filledEntry "continueOnError" t.continueOnError
    ++ filledEntry "parallel" t.parallel
    ++ filledEntry "timeoutInMinutes" t.timeoutInMinutes
    ++ textsEntry "demands" t.demands
    ++ matrixEntry t.matrix)

/-- A queue as a tree: its name where that is all. -/
def QueueTarget.toTree (t : QueueTarget) : Tree :=
  match t.name with
  | some name => if t = { name := some name } then .text name else t.toMapping
  | none => t.toMapping

/-- A deployment group as a mapping. -/
def DeploymentTarget.toMapping (t : DeploymentTarget) : Tree :=
  .ofEntries (filledEntry "group" t.group
    ++ filledEntry "continueOnError" t.continueOnError
    ++ filledEntry "healthOption" t.healthOption
    ++ filledEntry "percentage" t.percentage
    ++ filledEntry "timeoutInMinutes" t.timeoutInMinutes
    ++ textsEntry "tags" t.tags)

/-- A deployment group as a tree: its name where that is all. -/
def DeploymentTarget.toTree (t : DeploymentTarget) : Tree :=
  match t.group with
  | some group => if t = { group := some group } then .text group else t.toMapping
  | none => t.toMapping

/-- The server as a tree. -/
def ServerTarget.toTree (t : ServerTarget) : Tree :=
  if t = {} then .text "true"
  else
    .ofEntries (filledEntry "continueOnError" t.continueOnError
      ++ filledEntry "parallel" t.parallel
      ++ filledEntry "timeoutInMinutes" t.timeoutInMinutes
      ++ matrixEntry t.matrix)

/-- A target as a tree. -/
def Target.toTree : Target → Tree
  | queue t => t.toTree
  | deployment t => t.toTree
  | server t => t.toTree

/-- The entries for the properties of a phase. -/
def Properties.toEntries (p : Properties) : List (String × Tree) :=
  textsEntry "dependsOn" p.dependsOn
    ++ filledEntry "condition" p.condition
    ++ filledEntry "continueOnError" p.continueOnError
    ++ filledEntry "enableAccessToken" p.enableAccessToken
    ++ (p.target.map fun t => (t.keyword, t.toTree)).toList

/-- A phase as a tree. -/
def Phase.toTree (p : Phase) : Tree :=
  .ofEntries ([("phase", .text (p.name.getD ""))]
    ++ p.properties.toEntries
    ++ (if p.vars.isEmpty then [] else [("variables", variablesTree p.vars)])
    ++ (if p.steps.isEmpty then [] else [("steps", stepsTree p.steps)]))

/-- Overrides for a phase as a tree. -/
def Selector.toTree (s : Selector) : Tree :=
  .ofEntries ([("name", .text s.name)] ++ overridesEntry s.overrides)

/-- The entries for a reference to a template of phases, behind its path. -/
def PhasesReference.bodyEntries (r : PhasesReference) : List (String × Tree) :=
  parametersEntry r.parameters
    ++ (if r.selectors.isEmpty then [] else [("phases", .sequence (r.selectors.map Selector.toTree))])
    ++ overridesEntry r.overrides

/-- An entry of a list of phases as a tree. -/
def PhaseEntry.toTree : PhaseEntry → Tree
  | phase p => p.toTree
  | template r => .ofEntries ([("template", .text r.path)] ++ r.bodyEntries)

/-- A list of phases as a tree. -/
def phasesTree (phases : List PhaseEntry) : Tree := .sequence (phases.map PhaseEntry.toTree)

end PipelineExpansion.BuildProcess
