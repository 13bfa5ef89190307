import PipelineExpansion.BuildProcess.Model
import PipelineExpansion.Text.Pieces
import PipelineExpansion.Yaml.Cursor
import PipelineExpansion.Yaml.Tree

/-!
# Steps of build processes

A step is a mapping whose first key says what it is. Scripts are shorthands for tasks, and a task is
written as a shorthand again where that says the same. Groups and templates are refused where only simple
steps may be.
-/

namespace PipelineExpansion.BuildProcess

open Yaml (Reader Scalar Tree)

/-- The fault of a property that is not known. -/
def unexpectedProperty {α : Type} (key : Scalar) : Reader α :=
  Reader.failAt (some key.span) ("Unexpected property: '" ++ key.text ++ "'")

/-! ### Tasks -/

/-- Reads a property that every task has. -/
def TaskStep.control (t : TaskStep) (key : Scalar) : Reader TaskStep := do
  match key.text with
  | "condition" => return { t with condition := some (← Reader.scalar).text }
  | "continueOnError" => return { t with continueOnError := ← Reader.boolean }
  | "enabled" => return { t with enabled := ← Reader.boolean }
  | "env" => return { t with env := ← Reader.textMap .exact }
  | "name" => return { t with name := some (← Reader.scalar).text }
  | "timeoutInMinutes" => return { t with timeoutInMinutes := ← Reader.int32 }
  | other => Reader.failAt (some key.span) ("Unexpected property " ++ other)

/-- A name, `@`, and a version: a whole number of 31 bits. -/
def taskReference? (s : String) : Option (String × String) :=
  match Text.split '@' s with
  | [name, version] =>
    let digits := version.toList
    if !name.isEmpty && !digits.isEmpty && digits.all Char.isDigit
        && Binary64.digitsValue digits ≤ 2147483647 then some (name, version)
    else none
  | _ => none

/-- Reads the rest of a task. -/
def readTask : Reader TaskStep := do
  let s ← Reader.scalar
  match taskReference? s.text with
  | none =>
    Reader.failAt (some s.span) ("Task reference must be in the format <NAME>@<VERSION>. For example " ++
      "MyTask@2. The following task reference format is invalid: '" ++ s.text ++ "'")
  | some (task, version) =>
    Reader.untilEnd .mappingEnd { task, version } fun (t : TaskStep) => do
      let key ← Reader.scalar
      if key.text = "inputs" then
        return { t with inputs := .ofList (← Reader.textMap .ignoreCase) }
      else t.control key

/-- A shorthand for a task with a script. -/
structure Shorthand where
  keyword : String
  task : String
  version : String
  inline : Bool
  extras : List String

/-- The shorthands. -/
def shorthands : List Shorthand := [
  ⟨"script", "CmdLine", "2", false, ["failOnStderr", "workingDirectory"]⟩,
  ⟨"bash", "Bash", "3", true, ["failOnStderr", "workingDirectory"]⟩,
  ⟨"powershell", "PowerShell", "2", true,
    ["errorActionPreference", "failOnStderr", "ignoreLASTEXITCODE", "workingDirectory"]⟩]

/-- The task of a shorthand with a script. -/
def Shorthand.toTask (s : Shorthand) (script : String) : TaskStep :=
  let given : Task.Inputs := if s.inline then (∅ : Task.Inputs).insert "targetType" "inline" else ∅
  { task := s.task, version := s.version, inputs := given.insert "script" script }

/-- Reads the rest of a shorthand. -/
def Shorthand.read (s : Shorthand) : Reader TaskStep := do
  let script ← Reader.scalar
  Reader.untilEnd .mappingEnd (s.toTask script.text) fun t => do
    let key ← Reader.scalar
    match s.extras.find? (Text.sameName · key.text) with
    | some extra => return { t with inputs := t.inputs.insert extra (← Reader.scalar).text }
    | none => t.control key

/-! ### Checkout -/

/-- Reads a property of a checkout. -/
def CheckoutStep.property (c : CheckoutStep) : Reader CheckoutStep := do
  let key ← Reader.scalar
  match key.text with
  | "clean" => return { c with clean := some (← Reader.nonEmpty) }
  | "fetchDepth" => return { c with fetchDepth := some (← Reader.nonEmpty) }
  | "lfs" => return { c with lfs := some (← Reader.nonEmpty) }
  | _ => unexpectedProperty key

/-- Reads the rest of a checkout. -/
def readCheckout : Reader CheckoutStep := do
  let s ← Reader.scalar
  match s.text with
  | "self" => Reader.untilEnd .mappingEnd ⟨s.text, none, none, none⟩ CheckoutStep.property
  | "none" => do
    let _ ← Reader.expect .mappingEnd
    return ⟨s.text, none, none, none⟩
  | other =>
    Reader.failAt (some s.span) ("Unexpected resource name '" ++ other ++ "'. The 'checkout' step " ++
      "currently can only be used with the resource name 'self' or 'none'.")

/-! ### Simple steps -/

/-- Reads the rest of a simple step behind its first key; none for any other key. -/
def simpleStep? (first : Scalar) : Option (Reader SimpleStep) :=
  match shorthands.find? (·.keyword = first.text) with
  | some s => some do return .task (← s.read)
  | none =>
    match first.text with
    | "task" => some do return .task (← readTask)
    | "checkout" => some do return .checkout (← readCheckout)
    | _ => none

/-- The fault of a step that is not known. -/
def unknownStep {α : Type} (first : Scalar) : Reader α :=
  Reader.failAt (some first.span) ("Unknown step type: '" ++ first.text ++ "'")

/-- Reads a simple step. -/
def readSimpleStep : Reader SimpleStep := do
  let _ ← Reader.expect .mappingStart
  let first ← Reader.scalar
  match simpleStep? first with
  | some rest => rest
  | none =>
    match first.text with
    | "group" =>
      Reader.failAt (some first.span)
        "A step 'group' cannot be nested within a step group or steps template."
    | "template" =>
      Reader.failAt (some first.span)
        "Steps 'template' cannot be nested within a step group or steps template."
    | _ => unknownStep first

/-- Reads a sequence of simple steps. -/
def readSimpleSteps : Reader (List SimpleStep) := Reader.sequenceOf readSimpleStep

/-- Reads overrides. -/
def readOverrides : Reader Overrides :=
  Reader.mappingOf [] fun (o : Overrides) => do
    let group ← Reader.nonEmpty
    return o.put group (← readSimpleSteps)

/-! ### All steps -/

/-- Reads the rest of a group. -/
def readGroup : Reader Step := do
  let name ← Reader.nonEmpty
  let steps ← Reader.untilEnd .mappingEnd [] fun _ => do
    let key ← Reader.scalar
    if key.text = "steps" then readSimpleSteps else unexpectedProperty key
  return .group name steps

/-- Reads a property of a reference to a template of steps. -/
def StepsReference.property (r : StepsReference) : Reader StepsReference := do
  let key ← Reader.scalar
  match key.text with
  | "parameters" => return { r with parameters := ← Reader.mapping 1 }
  | "steps" => return { r with overrides := ← readOverrides }
  | _ => unexpectedProperty key

/-- Reads a step. -/
def readStep : Reader Step := do
  let _ ← Reader.expect .mappingStart
  let first ← Reader.scalar
  match simpleStep? first with
  | some rest => return .simple (← rest)
  | none =>
    match first.text with
    | "group" => readGroup
    | "template" => do
      let path ← Reader.nonEmpty
      return .template (← Reader.untilEnd .mappingEnd { path } StepsReference.property)
    | _ => unknownStep first

/-- Reads a sequence of steps. -/
def readSteps : Reader (List Step) := Reader.sequenceOf readStep

/-! ### Writing -/

/-- An entry for a text, or none. -/
def textEntry (name : String) : Option String → List (String × Tree)
  | some s => [(name, .text s)]
  | none => []

/-- An entry for a text that is not empty, or none. -/
def filledEntry (name : String) (value : Option String) : List (String × Tree) :=
  textEntry name (value.filter (!·.isEmpty))

/-- Values for a template, unless there are none. -/
def parametersEntry (parameters : Parameters) : List (String × Tree) :=
  if parameters.isEmpty then [] else [("parameters", .ofGraph (.mapping parameters))]

/-- Whether a task is what a shorthand stands for. -/
def Shorthand.standsFor (s : Shorthand) (t : TaskStep) : Bool :=
  t.task = s.task && t.version = s.version && t.inputs.contains "script"
    && (!s.inline || (t.inputs.get? "targetType").any (Text.sameName · "inline"))
    && t.inputs.toList.all fun (name, _) =>
      Text.sameName name "script" || (s.inline && Text.sameName name "targetType")
        || s.extras.any (Text.sameName · name)

/-- The entries for the control properties of a task. What is given by default is left out. -/
def TaskStep.controlEntries (t : TaskStep) : List (String × Tree) :=
  filledEntry "name" t.name
    ++ (if t.enabled then [] else [("enabled", .text "false")])
    ++ filledEntry "condition" t.condition
    ++ (if t.continueOnError then [("continueOnError", .text "true")] else [])
    ++ (if 0 < t.timeoutInMinutes then [("timeoutInMinutes", .text (toString t.timeoutInMinutes))] else [])

/-- The entry for the environment of a task. -/
def TaskStep.envEntry (t : TaskStep) : List (String × Tree) :=
  if t.env.isEmpty then [] else [("env", .ofTexts t.env)]

/-- A task written as a shorthand. -/
def Shorthand.toTree (s : Shorthand) (t : TaskStep) : Tree :=
  .ofEntries ([(s.keyword, .text ((t.inputs.get? "script").getD ""))]
    ++ s.extras.flatMap (fun extra => filledEntry extra (t.inputs.get? extra))
    ++ t.controlEntries ++ t.envEntry)

/-- The name and version of a task. -/
def TaskStep.reference (t : TaskStep) : String :=
  if t.version.isEmpty then t.task else t.task ++ "@" ++ t.version

/-- A task as a tree, as a shorthand where there is one. -/
def TaskStep.toTree (t : TaskStep) : Tree :=
  match shorthands.find? (·.standsFor t) with
  | some s => s.toTree t
  | none =>
    .ofEntries ([("task", .text t.reference)] ++ t.controlEntries
      ++ (if t.inputs.size = 0 then [] else [("inputs", .ofTexts t.inputs.toList)])
      ++ t.envEntry)

/-- A checkout as a tree. -/
def CheckoutStep.toTree (c : CheckoutStep) : Tree :=
  .ofEntries ([("checkout", .text c.repository)]
    ++ textEntry "clean" c.clean ++ textEntry "fetchDepth" c.fetchDepth ++ textEntry "lfs" c.lfs)

/-- A simple step as a tree. -/
def SimpleStep.toTree : SimpleStep → Tree
  | task t => t.toTree
  | checkout c => c.toTree

/-- Simple steps as a tree. -/
def simpleStepsTree (steps : List SimpleStep) : Tree := .sequence (steps.map SimpleStep.toTree)

/-- The entry for overrides, unless there are none. -/
def overridesEntry (o : Overrides) : List (String × Tree) :=
  if o.isEmpty then []
  else [("steps", .ofEntries (o.map fun (group, steps) => (group, simpleStepsTree steps)))]

/-- A step as a tree. -/
def Step.toTree : Step → Tree
  | simple s => s.toTree
  | group name steps =>
    .ofEntries ([("group", .text name)]
      ++ if steps.isEmpty then [] else [("steps", simpleStepsTree steps)])
  | template r =>
    .ofEntries ([("template", .text r.path)] ++ parametersEntry r.parameters ++ overridesEntry r.overrides)

/-- Steps as a tree. -/
def stepsTree (steps : List Step) : Tree := .sequence (steps.map Step.toTree)

end PipelineExpansion.BuildProcess
