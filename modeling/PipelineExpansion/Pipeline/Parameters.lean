import PipelineExpansion.Expression.Compare
import PipelineExpansion.Pipeline.Stage

/-!
# Parameters of templates

A template declares its parameters as a mapping of names to defaults, or as a sequence of descriptors with
types. `convert` brings a value to a type: scalars must be of it already, while steps, jobs and stages are
composed, with the templates in them, and turned back into tokens. `bindParameters` gives every declared
parameter its value, and refuses values for names that are not declared.
-/

namespace PipelineExpansion.Pipeline

open Template (Context Entry Resolve Token)

/-- A scalar that has to be of a kind; null stands for the zero value of the kind. -/
def convertScalar (t zero : Token) (kind : String) : Except Diagnostic Token :=
  if t.isNull then .ok zero
  else if t.kindName = zero.kindName then .ok t
  else
    .error ((Diagnostic.meaning ("Expected a " ++ kind ++ " type, found " ++ t.kindName)).withSpan t.span)

/-- Refuses a job that is no deployment. -/
def requireDeployment (t : Token) (j : Job) : Except Diagnostic Unit :=
  if j.deployment then .ok ()
  else .error ((Diagnostic.meaning "Only Deployment Jobs are valid").withSpan t.span)

/-- The types that a parameter may have. -/
inductive ParameterType where
  | object
  | boolean
  | number
  | string
  | step
  | stepList
  | job
  | jobList
  | deployment
  | deploymentList
  | stage
  | stageList
deriving DecidableEq, Repr

/-- The type of a name. -/
def ParameterType.ofName? : String → Option ParameterType
  | "object" => some object
  | "boolean" => some boolean
  | "number" => some number
  | "string" => some string
  | "step" => some step
  | "stepList" => some stepList
  | "job" => some job
  | "jobList" => some jobList
  | "deployment" => some deployment
  | "deploymentList" => some deploymentList
  | "stage" => some stage
  | "stageList" => some stageList
  | _ => none

/-- Brings a value to a type, without a place of its own where it is made anew. -/
def convertTo (refs : References) (c : Context) (t : Token) : ParameterType → Resolve Token
  | .object => return t
  | .boolean => Resolve.ofExcept (convertScalar t (.ofBool false) "boolean")
  | .number => Resolve.ofExcept (convertScalar t (.ofInt 0) "number")
  | .string => Resolve.ofExcept (convertScalar t (.ofText "") "string")
  | .step => do
    if t.isNull then return .ofNull
    match ← stepsOfItem refs c t with
    | first :: _ => return first.toToken
    | [] => return .ofNull
  | .stepList => do return stepsToken (← stepList refs c t)
  | .job => do
    if t.isNull then return .ofNull
    return (← Job.ofToken? refs c t false).toToken
  | .jobList => do return jobsToken (← jobList refs c t)
  | .deployment => do
    if t.isNull then return .ofNull
    let job ← Job.ofToken? refs c t false
    Resolve.ofExcept (requireDeployment t job)
    return job.toToken
  | .deploymentList => do
    let jobs ← jobList refs c t
    jobs.forM fun j => Resolve.ofExcept (requireDeployment t j)
    return jobsToken jobs
  | .stage => do
    if t.isNull then return .ofNull
    return (← Stage.ofToken? refs c t false).toToken
  | .stageList => do return stagesToken (← stageList refs c t)

/-- Brings a value to the type of a name. -/
def convert (refs : References) (c : Context) (t : Token) (type : String) : Resolve Token :=
  match ParameterType.ofName? type with
  | some .object => return t
  | some known => do return (← convertTo refs c t known).locatedAt t
  | none =>
    throw ((Diagnostic.meaning ("This parameter type is not supported: " ++ type)).withSpan t.span)

/-! ### Declarations -/

/-- A declared parameter. -/
structure Parameter where
  name : Option String := none
  type : String := "object"
  default : Token := .ofNull
  values : Option (List Token) := none

/-- Reads a property of a declared parameter. -/
def Parameter.read (p : Parameter) (e : Entry) : Except Diagnostic Parameter :=
  let (key, value) := e
  match key.name with
  | "name" => do return { p with name := some (← value.expectNonEmpty "name") }
  | "type" => do return { p with type := ← value.expectText "type" }
  | "default" => .ok { p with default := value }
  | "values" => do return { p with values := some (← value.expectSequence "values") }
  | "displayName" => .ok p
  | other => .error (key.fault ("Unexpected parameter property '" ++ other ++ "'"))

/-- The declared parameter of a token, with its name. -/
def Parameter.ofToken? (t : Token) : Except Diagnostic (String × Parameter) := do
  let p ← (← t.expectMapping "parameters").foldlM Parameter.read {}
  match p.name with
  | some name => return (name, p)
  | none => throw (t.fault "A parameter requires a 'name'")

/-- Refuses a value that is not among those that are allowed. -/
def Parameter.check (p : Parameter) (name : String) (value : Token) : Except Diagnostic Unit :=
  match p.values with
  | none => .ok ()
  | some allowed =>
    if allowed.any (Expression.looselyEqual · value) then .ok ()
    else
      .error ((Diagnostic.meaning ("The value '" ++ value.display?.getD "" ++ "' for parameter '" ++
        name ++ "' is not in the list of allowed values")).withSpan value.span)

/-- The value that is provided for a name. -/
def provided? (provided : List Entry) (name : String) : Option Token :=
  (provided.find? fun (k, _) => k.name = name).map (·.2)

/-- Gives an entry of a mapping of parameters its value. -/
def bindEntry (provided : List Entry) (e : Entry) : String × Token :=
  (e.1.name, (provided? provided e.1.name).getD e.2)

/-- Gives a declared parameter its value. -/
def bindDeclared (refs : References) (c : Context) (provided : List Entry) (t : Token) :
    Resolve (String × Token) := do
  let (name, p) ← Resolve.ofExcept (Parameter.ofToken? t)
  let default ← convert refs c p.default p.type
  let value ←
    match provided? provided name with
    | some value => convert refs c value p.type
    | none => pure default
  Resolve.ofExcept (p.check name value)
  return (name, value)

/-- Gives declared parameters their values, one after another. -/
def bindAll (refs : References) (c : Context) (provided : List Entry) :
    List Token → Resolve (List (String × Token))
  | [] => return []
  | t :: rest => do
    let own ← bindDeclared refs c provided t
    return own :: (← bindAll refs c provided rest)

/-- Binds the parameters of a declaration. -/
def bindDeclaration (refs : References) (c : Context) (provided : List Entry) :
    Option Token → Resolve (List (String × Token))
  | none | some (.null _) => return []
  | some (.mapping _ entries) => return entries.map (bindEntry provided)
  | some t => do bindAll refs c provided (← Resolve.ofExcept (t.expectSequence "parameters"))

/-- Binds declared parameters to provided values. -/
def bindParameters (refs : References) (c : Context) (declared values : Option Token) :
    Resolve Token := do
  let provided ←
    match values with
    | none | some (.null _) => pure []
    | some t => Resolve.ofExcept (t.expectMapping "parameters")
  let bound ← bindDeclaration refs c provided declared
  let used := bound.countP fun (name, _) => (provided? provided name).isSome
  if used ≠ provided.length then
    let undeclared := (provided.map (·.1.name)).filter fun name => !bound.any (·.1 = name)
    throw (.meaning ("Provided undeclared parameters: " ++ Text.join ", " undeclared))
  return .ofPairs bound

end PipelineExpansion.Pipeline
