import PipelineExpansion.Pipeline.Strategy
import PipelineExpansion.Pipeline.Variables

/-!
# Jobs

A job is a mapping that begins with `job` or `deployment`. The steps at the root of a pipeline are a job
without such a key. Scalars stay texts, so that what is computed in the run stays as it is written.
-/

namespace PipelineExpansion.Pipeline

open Template (Context Entry Resolve Token)

/-- A name; null leaves it open. -/
def nameOf? (t : Token) (what : String) : Except Diagnostic (Option String) :=
  if t.isNull then .ok none else (t.expectText what).map some

/-- Reads a property of an environment. -/
def readEnvironment (draft : Option String × Option String) (e : Entry) :
    Except Diagnostic (Option String × Option String) :=
  match e.1.name with
  | "name" => do return (some (← e.2.expectText "environment.name"), draft.2)
  | "resourceType" => do return (draft.1, some (← e.2.expectText "environment.resourceType"))
  | _ => .ok draft

/-- The environment of a token. -/
def Environment.ofToken? (t : Token) : Except Diagnostic Environment :=
  if t.isScalar then do return { name := ← t.expectText "environment" }
  else do
    match ← (← t.expectMapping "environment").foldlM readEnvironment (none, none) with
    | (some name, resourceType) => return { name, resourceType }
    | (none, _) => throw (t.fault "An environment requires a 'name'")

/-- Reads a property of uses. -/
def Uses.read (u : Uses) (e : Entry) : Except Diagnostic Uses :=
  match e.1.name with
  | "repositories" => do return { u with repositories := some (← e.2.expectTexts "uses.repositories") }
  | "pools" => do return { u with pools := some (← e.2.expectTexts "uses.pools") }
  | _ => .ok u

/-- The uses of a token. -/
def Uses.ofToken? (t : Token) : Except Diagnostic Uses := do
  (← t.expectMapping "uses").foldlM Uses.read {}

/-- What a workspace cleans, where that is said. -/
def workspaceOf (t : Token) : Except Diagnostic (Option String) :=
  match t.get? "clean" with
  | some v => (v.expectText "workspace.clean").map some
  | none => .ok none

/-- Puts a service into a dictionary. -/
def addService (services : Dictionary Container) (e : Entry) :
    Except Diagnostic (Dictionary Container) := do
  return services.put e.1.name (← Container.ofToken? e.2)

mutual

/-- A token with a text for every scalar but null. -/
def textual : Token → Token
  | .null o => .null o
  | .boolean o b => .text o (if b then "true" else "false")
  | .number o n => .text o (Template.numberText n)
  | .text o s => .text o s
  | .sequence o items => .sequence o (textualItems items)
  | .mapping o entries => .mapping o (textualEntries entries)

/-- Items with a text for every scalar but null. -/
def textualItems : List Token → List Token
  | [] => []
  | t :: rest => textual t :: textualItems rest

/-- Entries with a text for every scalar but null. -/
def textualEntries : List (Template.Key × Token) → List (Template.Key × Token)
  | [] => []
  | (k, t) :: rest => (k, textual t) :: textualEntries rest

end

/-- A job that is being read, and its strategy, whose kind depends on the job's. -/
structure JobDraft where
  job : Job := {}
  strategy : Option Token := none

/-- Reads a property of a job that needs no other file. -/
def Job.readPlain (j : Job) (e : Entry) : Except Diagnostic Job :=
  let (key, value) := e
  match key.name with
  | "job" => do return { j with name := ← nameOf? value "job" }
  | "deployment" => do return { j with name := ← nameOf? value "deployment", deployment := true }
  | "displayName" => do return { j with displayName := some (← value.expectText "displayName") }
  | "dependsOn" => do return { j with dependsOn := some (← value.expectTexts "dependsOn") }
  | "condition" => do return { j with condition := some (← value.expectText "condition") }
  | "continueOnError" => do
    return { j with continueOnError := some (← value.expectText "continueOnError") }
  | "container" => do return { j with container := some (← Container.ofToken? value) }
  | "timeoutInMinutes" => do
    return { j with timeoutInMinutes := some (← value.expectText "timeoutInMinutes") }
  | "cancelTimeoutInMinutes" => do
    return { j with cancelTimeoutInMinutes := some (← value.expectText "cancelTimeoutInMinutes") }
  | "services" => do
    return { j with services := some (← (← value.expectMapping "services").foldlM addService []) }
  | "templateContext" => .ok { j with templateContext := some (textual value) }
  | "pool" => do return { j with pool := some (← Pool.ofToken? value) }
  | "environment" => do return { j with environment := some (← Environment.ofToken? value) }
  | "uses" => do return { j with uses := some (← Uses.ofToken? value) }
  | "workspace" => do return { j with workspace := ← workspaceOf value }
  | other => .error (key.fault ("Unexpected Key '" ++ other ++ "'"))

/-- Reads a property of a job. -/
def JobDraft.read (refs : References) (c : Context) (d : JobDraft) (e : Entry) : Resolve JobDraft :=
  match e.1.name with
  | "strategy" => return { d with strategy := some e.2 }
  | "variables" => do
    let vars ← addVariables refs c [] e.2
    return { d with job := { d.job with vars := some vars } }
  | "steps" => do
    let steps ← stepList refs c e.2
    return { d with job := { d.job with steps := some steps } }
  | _ => do
    return { d with job := ← Resolve.ofExcept (d.job.readPlain e) }

/-- The name of the first key of some entries. -/
def firstKey? (entries : List Entry) : Option String := entries.head?.map (·.1.name)

/-- The job of a token; an implicit one needs no key that names it. -/
def Job.ofToken? (refs : References) (c : Context) (t : Token) (implicit : Bool) : Resolve Job := do
  let entries ← Resolve.ofExcept (t.expectMapping "job")
  if !implicit && firstKey? entries ≠ some "job" && firstKey? entries ≠ some "deployment" then
    throw (t.fault "Expected either job or deployment")
  let d ← entries.foldlM (JobDraft.read refs c) {}
  match d.strategy with
  | none => return d.job
  | some strategy =>
    return { d.job with strategy := some (← Strategy.ofToken? refs c strategy d.job.deployment) }

/-- The path of the template that some entries refer to, and what follows it. -/
def templateReference? : List Entry → Option (Token × List Entry)
  | (key, path) :: rest => if key.name = "template" then some (path, rest) else none
  | [] => none

/-- The jobs that an item of a sequence of jobs stands for. -/
def jobsOfItem (refs : References) (c : Context) (t : Token) : Resolve (List Job) := do
  let entries ← Resolve.ofExcept (t.expectMapping "jobs")
  match templateReference? entries with
  | some (path, rest) =>
    let path ← Resolve.ofExcept (path.expectNonEmpty "template")
    refs.jobs c path (← Resolve.ofExcept (templateParameters rest))
  | none => return [← Job.ofToken? refs c t false]

/-- The jobs of the items of a sequence. -/
def jobsOfItems (refs : References) (c : Context) : List Token → Resolve (List Job)
  | [] => return []
  | t :: rest => do
    let own ← jobsOfItem refs c t
    return own ++ (← jobsOfItems refs c rest)

/-- The jobs of a section; null has none. -/
def jobList (refs : References) (c : Context) (t : Token) : Resolve (List Job) := do
  if t.isNull then return []
  jobsOfItems refs c (← Resolve.ofExcept (t.expectSequence "jobs"))

/-! ### As tokens -/

/-- A name as a token; one that is open is null. -/
def nameToken : Option String → Token
  | some name => .ofText name
  | none => .ofNull

/-- An environment as a token. -/
def Environment.toToken (e : Environment) : Token :=
  match e.resourceType with
  | none => .ofText e.name
  | some resourceType => .ofPairs [("name", .ofText e.name), ("resourceType", .ofText resourceType)]

/-- Uses as a token. -/
def Uses.toToken (u : Uses) : Token :=
  .ofPairs (field "repositories" textsToken u.repositories ++ field "pools" textsToken u.pools)

/-- A job as a token. A deployment has an environment and no steps of its own; other jobs have steps. -/
def Job.toToken (j : Job) : Token :=
  .ofPairs ([(if j.deployment then "deployment" else "job", nameToken j.name)]
    ++ field "displayName" .ofText j.displayName
    ++ field "condition" .ofText j.condition
    ++ field "continueOnError" .ofText j.continueOnError
    ++ field "timeoutInMinutes" .ofText j.timeoutInMinutes
    ++ field "cancelTimeoutInMinutes" .ofText j.cancelTimeoutInMinutes
    ++ field "container" Container.toToken j.container
    ++ field "services" (fun services => .ofPairs (services.map fun (k, s) => (k, s.toToken))) j.services
    ++ field "templateContext" id j.templateContext
    ++ field "dependsOn" textsToken j.dependsOn
    ++ field "strategy" Strategy.toToken j.strategy
    ++ field "variables" variablesToken j.vars
    ++ (if j.deployment then field "environment" Environment.toToken j.environment
      else field "steps" stepsToken j.steps)
    ++ field "pool" Pool.toToken j.pool
    ++ field "uses" Uses.toToken j.uses
    ++ field "workspace" (fun clean => .ofPairs [("clean", .ofText clean)]) j.workspace)

/-- Jobs as a token. -/
def jobsToken (jobs : List Job) : Token := .ofItems (jobs.map Job.toToken)

end PipelineExpansion.Pipeline
