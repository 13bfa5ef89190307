import PipelineExpansion.Pipeline.Reference

/-!
# Steps

A step is a mapping whose first key says what it is: a task, one of the shorthands for a task, or a
template. Control properties are the same for all of them. What is left over is an input of a shorthand;
a task has its inputs under `inputs`.
-/

namespace PipelineExpansion.Pipeline

open Template (Context Entry Key Resolve Token)

/-! ### Tasks -/

/-- The identifier of the task that checks out a repository. -/
def checkoutId : String := "6d15af64-176c-496d-b583-fd2ae21d4df4"

/-- Whether a reference is to the task that checks out a repository, by its name or its identifier. -/
def isCheckout (task : String) : Bool :=
  ["Checkout@1", "Checkout@1.0.0"].any (Text.sameName · task)
    || (Text.splitOnce? "@" task).any fun (id, version) =>
      Text.sameName id checkoutId && (version = "1" || version = "1.0.0")

/-- The reference to a task. Checkout is built in; others are looked up in the catalog where there is
one. -/
def taskReference (c : Context) (task : String) : Except Diagnostic TaskReference :=
  if isCheckout task then .ok ⟨some ⟨checkoutId, "Checkout", "1.0.0"⟩, task⟩
  else
    match c.tasks with
    | none => .ok ⟨none, task⟩
    | some catalog =>
      match catalog.find? task with
      | some identity => .ok ⟨some identity, task⟩
      | none => .error (.meaning ("Failed to resolve task " ++ task))

/-! ### Control properties -/

/-- A whole number of 32 bits. -/
def expectInt32 (t : Token) (what : String) : Except Diagnostic Int := do
  let n ← t.expectInt what
  if -2147483648 ≤ n && n ≤ 2147483647 then return n
  else throw (t.fault ("Value for '" ++ what ++ "' is out of range"))

/-- Reads a property of a target. -/
def Target.read (target : Target) (e : Entry) : Except Diagnostic Target :=
  match e.1.name with
  | "container" => .ok { target with container := e.2.text? }
  | "commands" => .ok { target with commands := e.2.text? }
  | "settableVariables" => do
    if e.2.text? = some "none" then return { target with settableVariables := some [] }
    else return { target with settableVariables := some (← e.2.expectTexts "settableVariables") }
  | _ => .ok target

/-- A target: the name of a container, or a mapping. -/
def Target.ofToken? (t : Token) : Except Diagnostic Target :=
  match t.text? with
  | some container => .ok { container := some container }
  | none => do (← t.expectMapping "target").foldlM Target.read {}

/-- Reads a control property; none for a key that is no such property. -/
def Step.control? (step : Step) (e : Entry) : Except Diagnostic (Option Step) :=
  let (key, value) := e
  match key.name with
  | "condition" => do return some { step with condition := some (← value.expectText "condition") }
  | "continueOnError" => do
    return some { step with continueOnError := some (← value.expectBool "continueOnError") }
  | "enabled" => do return some { step with enabled := some (← value.expectBool "enabled") }
  | "retryCountOnTaskFailure" => do
    return some { step with
      retryCountOnTaskFailure := some (← expectInt32 value "retryCountOnTaskFailure") }
  | "timeoutInMinutes" => do
    return some { step with timeoutInMinutes := some (← expectInt32 value "timeoutInMinutes") }
  | "target" => do return some { step with target := some (← Target.ofToken? value) }
  | "env" => do return some { step with env := Dictionary.ofEntries (← value.expectTextMap "env") }
  | "name" => do return some { step with name := some (← value.expectText "name") }
  | "displayName" => do
    return some { step with displayName := some (← value.expectText "displayName") }
  | _ => .ok none

/-- Reads the control properties; the other entries are left over. -/
def Step.controls (step : Step) : List Entry → Except Diagnostic (Step × List Entry)
  | [] => .ok (step, [])
  | e :: rest => do
    match ← step.control? e with
    | some step => step.controls rest
    | none =>
      let (step, left) ← step.controls rest
      return (step, e :: left)

/-! ### Shorthands -/

/-- What a shorthand stands for: a task, the input that takes its value, and inputs that are always
given. -/
structure Shorthand where
  task : String
  input : String
  given : List (String × String) := []

/-- The shorthand of a key. -/
def shorthand? : String → Option Shorthand
  | "powershell" => some ⟨"PowerShell@2", "script", [("targetType", "inline")]⟩
  | "pwsh" => some ⟨"PowerShell@2", "script", [("targetType", "inline"), ("pwsh", "true")]⟩
  | "bash" => some ⟨"Bash@3", "script", [("targetType", "inline")]⟩
  | "script" => some ⟨"CmdLine@2", "script", []⟩
  | "checkout" => some ⟨"Checkout@1", "repository", []⟩
  | "download" => some ⟨"DownloadPipelineArtifact@2", "buildType", []⟩
  | "downloadBuild" => some ⟨"DownloadBuildArtifacts@0", "buildType", []⟩
  | "getPackage" => some ⟨"DownloadPackage@1", "definition", []⟩
  | "publish" => some ⟨"PublishPipelineArtifact@1", "path", []⟩
  | "reviewApp" => some ⟨"ReviewApp@0", "resourceName", []⟩
  | _ => none

/-- Adds an entry as an input. -/
def addInput (inputs : Task.Inputs) (e : Entry) : Except Diagnostic Task.Inputs := do
  return inputs.insert e.1.name (← e.2.expectText e.1.name)

/-- Adds the inputs of a task, if an entry holds them. -/
def addTaskInputs (inputs : Task.Inputs) (e : Entry) : Except Diagnostic Task.Inputs :=
  if e.1.name = "inputs" && !e.2.isNull then do
    return inputs.insertAll (← e.2.expectTextMap "inputs")
  else .ok inputs

/-- Names the place of a diagnostic that has none. -/
def located {α : Type} (span : Option Yaml.Span) (r : Except Diagnostic α) : Except Diagnostic α :=
  r.mapError (·.withSpan span)

/-- Reads a step that is no template. -/
def Step.ofEntries? (c : Context) (key : Key) (value : Token) (rest : List Entry) :
    Except Diagnostic Step := do
  let (step, left) ← Step.controls {} rest
  let primary ← value.expectText key.name
  if key.name = "task" then
    let reference ← located value.span (taskReference c primary)
    return { step with reference, inputs := ← left.foldlM addTaskInputs ∅ }
  else
    match shorthand? key.name with
    | some s =>
      let reference ← located key.origin.span (taskReference c s.task)
      let inputs ← left.foldlM addInput ∅
      return { step with reference, inputs := (inputs.insert s.input primary).insertAll s.given }
    | none => throw (key.fault ("Unknown step type: '" ++ key.name ++ "'"))

/-- The steps that an item of a sequence of steps stands for. -/
def stepsOfItem (refs : References) (c : Context) (t : Token) : Resolve (List Step) := do
  let entries ← Resolve.ofExcept (t.expectMapping "steps")
  match entries with
  | [] => throw (t.fault "Expected a step, found an empty mapping")
  | (key, value) :: rest =>
    if key.name = "template" then
      let path ← Resolve.ofExcept (value.expectNonEmpty "template")
      let parameters ← Resolve.ofExcept (templateParameters rest)
      refs.steps c path parameters
    else return [← Resolve.ofExcept (Step.ofEntries? c key value rest)]

/-- The steps of the items of a sequence. -/
def stepsOfItems (refs : References) (c : Context) : List Token → Resolve (List Step)
  | [] => return []
  | t :: rest => do
    let own ← stepsOfItem refs c t
    return own ++ (← stepsOfItems refs c rest)

/-- The steps of a section; null has none. -/
def stepList (refs : References) (c : Context) (t : Token) : Resolve (List Step) := do
  if t.isNull then return []
  stepsOfItems refs c (← Resolve.ofExcept (t.expectSequence "steps"))

/-! ### As tokens -/

/-- A property with a value, or none. -/
def field {α : Type} (name : String) (token : α → Token) : Option α → List (String × Token)
  | some a => [(name, token a)]
  | none => []

/-- Texts as a token. -/
def textsToken (texts : List String) : Token := .ofItems (texts.map .ofText)

/-- Pairs of texts as a token. -/
def pairsToken (pairs : List (String × String)) : Token :=
  .ofPairs (pairs.map fun (k, v) => (k, .ofText v))

/-- A target as a token; `none` stands for no settable variables. -/
def Target.toToken (t : Target) : Token :=
  .ofPairs (field "container" .ofText t.container
    ++ field "commands" .ofText t.commands
    ++ field "settableVariables" (fun names => if names.isEmpty then .ofText "none" else textsToken names)
      t.settableVariables)

/-- A step as a token, in the form of a task. -/
def Step.toToken (s : Step) : Token :=
  .ofPairs ([("task", .ofText s.reference.nameAndVersion)]
    ++ field "name" .ofText s.name
    ++ field "displayName" .ofText s.displayName
    ++ field "condition" .ofText s.condition
    ++ field "continueOnError" .ofBool s.continueOnError
    ++ field "enabled" .ofBool s.enabled
    ++ field "retryCountOnTaskFailure" .ofInt s.retryCountOnTaskFailure
    ++ field "timeoutInMinutes" .ofInt s.timeoutInMinutes
    ++ field "target" Target.toToken s.target
    ++ (if s.env.isEmpty then [] else [("env", pairsToken s.env)])
    ++ (if s.inputs.size = 0 then [] else [("inputs", pairsToken s.inputs.toList)]))

/-- Steps as a token. -/
def stepsToken (steps : List Step) : Token := .ofItems (steps.map Step.toToken)

end PipelineExpansion.Pipeline
