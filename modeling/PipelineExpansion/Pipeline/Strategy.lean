import PipelineExpansion.Pipeline.Container

/-!
# Strategies

A job is multiplied in parallel or by a matrix; a deployment is rolled out at once, rolling, or as a
canary, in parts that have steps of their own. What belongs to the other kind of job is passed over.
-/

namespace PipelineExpansion.Pipeline

open Template (Context Entry Resolve Token)

/-- Reads a property of a hook. -/
def Hook.read (refs : References) (c : Context) (h : Hook) (e : Entry) : Resolve Hook :=
  match e.1.name with
  | "steps" => do return { h with steps := some (← stepList refs c e.2) }
  | "pool" => do return { h with pool := some (← Resolve.ofExcept (Pool.ofToken? e.2)) }
  | _ => return h

/-- The hook of a token. -/
def Hook.ofToken? (refs : References) (c : Context) (t : Token) : Resolve Hook := do
  (← Resolve.ofExcept (t.expectMapping "hook")).foldlM (Hook.read refs c) {}

/-- Reads a hook for an outcome. -/
def Hooks.readOutcome (refs : References) (c : Context) (h : Hooks) (e : Entry) : Resolve Hooks :=
  match e.1.name with
  | "failure" => do return { h with onFailure := some (← Hook.ofToken? refs c e.2) }
  | "success" => do return { h with onSuccess := some (← Hook.ofToken? refs c e.2) }
  | _ => return h

/-- Reads a hook. -/
def Hooks.read (refs : References) (c : Context) (h : Hooks) (e : Entry) : Resolve Hooks :=
  match e.1.name with
  | "preDeploy" => do return { h with preDeploy := some (← Hook.ofToken? refs c e.2) }
  | "deploy" => do return { h with deploy := some (← Hook.ofToken? refs c e.2) }
  | "routeTraffic" => do return { h with routeTraffic := some (← Hook.ofToken? refs c e.2) }
  | "postRouteTraffic" => do return { h with postRouteTraffic := some (← Hook.ofToken? refs c e.2) }
  | "on" => do (← Resolve.ofExcept (e.2.expectMapping "on")).foldlM (Hooks.readOutcome refs c) h
  | _ => return h

/-- The hooks of a token. -/
def Hooks.ofToken? (refs : References) (c : Context) (t : Token) : Resolve Hooks := do
  (← Resolve.ofExcept (t.expectMapping "strategy")).foldlM (Hooks.read refs c) {}

/-- The number of rolling deployments in parallel, where it is given. -/
def parallelOf (t : Token) : Except Diagnostic (Option String) :=
  match t.get? "maxParallel" with
  | some v => (v.expectText "maxParallel").map some
  | none => .ok none

/-- The increments of a canary rollout, where they are given. -/
def incrementsOf (t : Token) : Except Diagnostic (Option (List String)) :=
  match t.get? "increments" with
  | some v => do return some (← (← v.expectSequence "increments").mapM (·.expectText "increments"))
  | none => .ok none

/-- Puts a leg into a matrix. -/
def addLeg (matrix : Dictionary (Dictionary String)) (e : Entry) :
    Except Diagnostic (Dictionary (Dictionary String)) := do
  return matrix.put e.1.name (Dictionary.ofEntries (← e.2.expectTextMap "matrix"))

/-- Reads a property of the strategy of a job. -/
def Strategy.readForJob (s : Strategy) (e : Entry) : Except Diagnostic Strategy :=
  let (key, value) := e
  match key.name with
  | "parallel" => do return { s with parallel := some (← value.expectText "parallel") }
  | "maxParallel" => do return { s with maxParallel := some (← value.expectText "maxParallel") }
  | "matrix" => do
    if value.isScalar then return { s with matrixExpression := some (← value.expectText "matrix") }
    else return { s with matrix := some (← (← value.expectMapping "matrix").foldlM addLeg []) }
  | _ => .ok s

/-- Reads a property of the strategy of a deployment. -/
def Strategy.readForDeployment (refs : References) (c : Context) (s : Strategy) (e : Entry) :
    Resolve Strategy :=
  let (key, value) := e
  match key.name with
  | "runOnce" => do return { s with runOnce := some (← Hooks.ofToken? refs c value) }
  | "rolling" => do
    let hooks ← Hooks.ofToken? refs c value
    return { s with rolling := some { hooks with maxParallel := ← Resolve.ofExcept (parallelOf value) } }
  | "canary" => do
    let hooks ← Hooks.ofToken? refs c value
    return { s with canary := some { hooks with increments := ← Resolve.ofExcept (incrementsOf value) } }
  | _ => return s

/-- The strategy of a token, for a job or a deployment. -/
def Strategy.ofToken? (refs : References) (c : Context) (t : Token) (deployment : Bool) :
    Resolve Strategy := do
  let entries ← Resolve.ofExcept (t.expectMapping "strategy")
  if deployment then entries.foldlM (Strategy.readForDeployment refs c) {}
  else Resolve.ofExcept (entries.foldlM Strategy.readForJob {})

/-! ### As tokens -/

/-- A hook as a token. -/
def Hook.toToken (h : Hook) : Token :=
  .ofPairs (field "steps" stepsToken h.steps ++ field "pool" Pool.toToken h.pool)

/-- Hooks as a token. -/
def Hooks.toToken (h : Hooks) : Token :=
  let outcomes := field "failure" Hook.toToken h.onFailure ++ field "success" Hook.toToken h.onSuccess
  .ofPairs (field "preDeploy" Hook.toToken h.preDeploy
    ++ field "deploy" Hook.toToken h.deploy
    ++ field "routeTraffic" Hook.toToken h.routeTraffic
    ++ field "postRouteTraffic" Hook.toToken h.postRouteTraffic
    ++ (if outcomes.isEmpty then [] else [("on", .ofPairs outcomes)])
    ++ field "maxParallel" .ofText h.maxParallel
    ++ field "increments" textsToken h.increments)

/-- A strategy as a token. -/
def Strategy.toToken (s : Strategy) : Token :=
  .ofPairs (field "parallel" .ofText s.parallel
    ++ field "matrix" .ofText s.matrixExpression
    ++ field "matrix" (fun legs => .ofPairs (legs.map fun (name, leg) => (name, pairsToken leg))) s.matrix
    ++ field "maxParallel" .ofText s.maxParallel
    ++ field "runOnce" Hooks.toToken s.runOnce
    ++ field "rolling" Hooks.toToken s.rolling
    ++ field "canary" Hooks.toToken s.canary)

end PipelineExpansion.Pipeline
