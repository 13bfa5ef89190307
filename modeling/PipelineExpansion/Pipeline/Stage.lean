import PipelineExpansion.Pipeline.Job

/-!
# Stages

A stage is a mapping that begins with `stage`. The jobs at the root of a pipeline are a stage without that
key.
-/

namespace PipelineExpansion.Pipeline

open Template (Context Entry Resolve Token)

/-- Reads a property of a stage that needs no other file. -/
def Stage.readPlain (s : Stage) (e : Entry) : Except Diagnostic Stage :=
  let (key, value) := e
  match key.name with
  | "stage" => do return { s with name := ← nameOf? value "stage" }
  | "displayName" => do return { s with displayName := some (← value.expectText "displayName") }
  | "dependsOn" => do return { s with dependsOn := some (← value.expectTexts "dependsOn") }
  | "condition" => do return { s with condition := some (← value.expectText "condition") }
  | "pool" => do return { s with pool := some (← Pool.ofToken? value) }
  | "lockBehavior" => do return { s with lockBehavior := some (← value.expectText "lockBehavior") }
  | "templateContext" => .ok { s with templateContext := some (textual value) }
  | other => .error (key.fault ("Unexpected Key '" ++ other ++ "'"))

/-- Reads a property of a stage. -/
def Stage.read (refs : References) (c : Context) (s : Stage) (e : Entry) : Resolve Stage :=
  match e.1.name with
  | "variables" => do
    let vars ← addVariables refs c [] e.2
    return { s with vars := some vars }
  | "jobs" => do
    let jobs ← jobList refs c e.2
    return { s with jobs := some jobs }
  | _ => Resolve.ofExcept (s.readPlain e)

/-- The stage of a token; an implicit one needs no key that names it. -/
def Stage.ofToken? (refs : References) (c : Context) (t : Token) (implicit : Bool) : Resolve Stage := do
  let entries ← Resolve.ofExcept (t.expectMapping "stage")
  if !implicit && firstKey? entries ≠ some "stage" then throw (t.fault "Expected stage")
  entries.foldlM (Stage.read refs c) {}

/-- The stages that an item of a sequence of stages stands for. -/
def stagesOfItem (refs : References) (c : Context) (t : Token) : Resolve (List Stage) := do
  let entries ← Resolve.ofExcept (t.expectMapping "stages")
  match templateReference? entries with
  | some (path, rest) =>
    let path ← Resolve.ofExcept (path.expectNonEmpty "template")
    refs.stages c path (← Resolve.ofExcept (templateParameters rest))
  | none => return [← Stage.ofToken? refs c t false]

/-- The stages of the items of a sequence. -/
def stagesOfItems (refs : References) (c : Context) : List Token → Resolve (List Stage)
  | [] => return []
  | t :: rest => do
    let own ← stagesOfItem refs c t
    return own ++ (← stagesOfItems refs c rest)

/-- The stages of a section; null has none. -/
def stageList (refs : References) (c : Context) (t : Token) : Resolve (List Stage) := do
  if t.isNull then return []
  stagesOfItems refs c (← Resolve.ofExcept (t.expectSequence "stages"))

/-- A stage as a token. -/
def Stage.toToken (s : Stage) : Token :=
  .ofPairs ([("stage", nameToken s.name)]
    ++ field "displayName" .ofText s.displayName
    ++ field "dependsOn" textsToken s.dependsOn
    ++ field "condition" .ofText s.condition
    ++ field "variables" variablesToken s.vars
    ++ field "jobs" jobsToken s.jobs
    ++ field "pool" Pool.toToken s.pool
    ++ field "lockBehavior" .ofText s.lockBehavior
    ++ field "templateContext" id s.templateContext)

/-- Stages as a token. -/
def stagesToken (stages : List Stage) : Token := .ofItems (stages.map Stage.toToken)

end PipelineExpansion.Pipeline
