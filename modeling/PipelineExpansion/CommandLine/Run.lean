import PipelineExpansion.BuildProcess.Load
import PipelineExpansion.CommandLine.Arguments
import PipelineExpansion.CommandLine.Transcript
import PipelineExpansion.Disk
import PipelineExpansion.Pipeline.Load
import PipelineExpansion.Pipeline.Runtime
import PipelineExpansion.Pipeline.Serialize
import PipelineExpansion.Pipeline.Trigger
import PipelineExpansion.Yaml.Render

/-!
# Running commands

`expand` writes a pipeline with all its templates resolved, `validate` checks one as it is checked before a
run, and `legacy` writes a build process. Documents are found on a disk from a current directory. Their
paths are relative to a root: the one that is given, or else the nearest directory with a `.git`, from the
current one upwards.
-/

namespace PipelineExpansion.CommandLine

open Template (Context Token)

/-- Where a command is run. -/
structure Surroundings where
  disk : Disk
  directory : List String

namespace Surroundings

/-- The place that a path leads to. -/
def resolve (x : Surroundings) (path : String) : Session (Except Disk.Fault (List String)) := do
  Session.look (Disk.way x.directory path)
  return x.disk.resolve x.directory path

/-- The nearest directory with a `.git`, from the current one upwards. -/
def repositoryRoot (x : Surroundings) : Session (Option (List String)) := do
  let directories := Disk.ancestors x.directory
  Session.look (directories.map (· ++ [".git"]))
  return directories.find? (x.disk.has · ".git")

/-- The root for the document of a command: one that is given has to be there. -/
def root (x : Surroundings) (s : Subject) : Session (Except Disk.Fault (List String)) := do
  match s.root with
  | some path => x.resolve path
  | none => return .ok ((← x.repositoryRoot).getD x.directory)

end Surroundings

/-- A document that was found: its root, and its path from there. -/
structure Found where
  root : List String
  path : String

/-- The two sides of an equals sign; the left one is not empty. -/
def sides (what form entry : String) : Session (String × String) :=
  match Text.splitOnce? "=" entry with
  | some (name, value) =>
    if name.isEmpty then
      Session.refuse ("Invalid " ++ what ++ " format '" ++ entry ++ "'. Expected " ++ form)
    else return (name, value)
  | none => Session.refuse ("Invalid " ++ what ++ " format '" ++ entry ++ "'. Expected " ++ form)

/-- The names and values of parameters. -/
def parameterPairs (s : Subject) : Session (List (String × String)) :=
  s.parameters.mapM (sides "parameter" "name=value")

/-- Finds the document of a command; `kind` is what it is called if it is not there. -/
def find (x : Surroundings) (kind : String) (s : Subject) : Session Found := do
  let place ←
    match ← x.resolve s.path with
    | .ok place => pure place
    | .error _ => Session.refuse (kind ++ " file not found: " ++ s.path)
  let root ←
    match ← x.root s with
    | .ok root => pure root
    | .error fault => Session.refuse fault.message
  if root.isPrefixOf place then return ⟨root, Text.join "/" (place.drop root.length)⟩
  else
    Session.refuse ("Pipeline file " ++ Disk.pathOf place ++ " is outside the repository root "
      ++ Disk.pathOf root)

/-- Looks at what was read, and says what was noted where that is asked for. -/
def follow (s : Subject) (bases : Dictionary (Option (List String))) (root : List String)
    (journal : Template.Journal) : Session Unit := do
  Session.look (journal.reads.flatMap fun (repository, path) =>
    let base :=
      match repository with
      | none => some root
      | some name => (Disk.checkout? bases name).bind id
    (base.map (Disk.wayFrom · (Text.split '/' path))).getD [])
  if s.verbose then
    journal.notes.forM fun note => Session.say { text := note }

/-! ### Pipelines -/

/-- The directories of the repositories of a command, by their aliases. The empty path is the current
directory. -/
def checkouts (x : Surroundings) (s : Subject) : Session (Dictionary (Option (List String))) :=
  s.repositories.foldlM (fun found entry => do
    let (aliasName, path) ← sides "repository" "alias=path" entry
    let place ← if path.isEmpty then pure (.ok x.directory) else x.resolve path
    return Dictionary.put found aliasName place.toOption) []

/-- The value of a parameter: what it says in YAML, or else the text itself. -/
def parameterValue (text : String) : Token :=
  match Token.ofText? none text with
  | .ok value => if text.isEmpty then .ofText text else value
  | .error _ => .ofText text

/-- The values for the parameters of a pipeline; none where there are no values. -/
def parameterToken (s : Subject) : Session (Option Token) := do
  let pairs ← parameterPairs s
  return if pairs.isEmpty then none else some (.ofPairs (pairs.map fun (k, v) => (k, parameterValue v)))

/-- Loads the pipeline of a command. -/
def loadPipeline (x : Surroundings) (s : Subject) : Session Pipeline := do
  let found ← find x "Pipeline" s
  let bases ← checkouts x s
  let parameters ← parameterToken s
  let context : Context := {
    files := x.disk.provider (some found.root) bases
    schema := .standard
    repositories := Dictionary.ofEntries (bases.map fun (aliasName, _) => (aliasName, aliasName)) }
  Session.say (.status "Resolving" found.path)
  match (Pipeline.load context found.path parameters).run.run {} with
  | some (outcome, journal) => do
    follow s bases found.root journal
    Session.ofExcept outcome
  | none => Session.refuse "The references of this pipeline do not end"

/-- Writes a pipeline. -/
def Format.write (f : Format) (p : Pipeline) : String :=
  match f with
  | .yaml => (Yaml.Tree.ofJson p.toJson).render
  | .json => p.toJson.pretty ++ "\n"

/-- Writes a pipeline with its templates resolved. -/
def expand (x : Surroundings) (s : Subject) (f : Format) : Session Unit := do
  Session.write (f.write (← loadPipeline x s))

/-! ### Checks -/

/-- The number of steps of a job. -/
def stepCount (j : Pipeline.Job) : Nat := (j.steps.getD []).length

/-- How much there is in a pipeline. -/
def structureText (p : Pipeline) : String :=
  let stages := p.stages.getD []
  let jobs := stages.flatMap (·.jobs.getD [])
  let steps := jobs.flatMap (·.steps.getD [])
  "Structure: " ++ toString stages.length ++ " stages, " ++ toString jobs.length ++ " jobs, "
    ++ toString steps.length ++ " steps"

/-- A remark on something that has steps. -/
def stepsRemark (name : String) (steps : Nat) : Message :=
  .dim ("      " ++ name ++ " (" ++ toString steps ++ " steps)")

/-- Whether a trigger fires. -/
def triggerRemark (label branch : String) (fires : Bool) : Message :=
  if fires then .check (label ++ " fires for '" ++ branch ++ "'")
  else .dim ("      " ++ label ++ " does not fire for '" ++ branch ++ "'")

/-- The stages and jobs of a pipeline. -/
def stageRemarks (p : Pipeline) : List Message :=
  (p.stages.getD []).flatMap fun stage =>
    let jobs := stage.jobs.getD []
    Message.stage (stage.name.getD Pipeline.defaultName) jobs.length ::
      jobs.map fun j => stepsRemark (j.name.getD Pipeline.defaultName) (stepCount j)

/-- Checks a pipeline as it is checked before a run. -/
def validate (x : Surroundings) (s : Subject) (list : Bool) (branch : Option String)
    (changed : List String) : Session Unit := do
  let p ← loadPipeline x s
  Session.say (.check "Templates resolved")
  Session.say (.check (structureText p))
  let (p, outcome) := p.prepare
  Session.ofExcept outcome
  Session.say (.check "Names, dependencies and runtime expressions valid")
  let push ← Session.ofExcept p.pushTrigger
  let request ← Session.ofExcept p.requestTrigger
  Session.say (.check "Trigger filters valid")
  if let some branch := branch then
    Session.say (triggerRemark "CI trigger" branch (push.fires branch changed))
    Session.say (triggerRemark "PR trigger" branch (request.fires branch changed))
  if list then (stageRemarks p).forM Session.say
  Session.write "\n"
  Session.say (.success "Pipeline is valid")

/-! ### Build processes -/

/-- The phases of a process with the numbers of their steps. -/
def phaseRemarks (p : BuildProcess) : List Message :=
  (p.phases.getD []).filterMap fun
    | .phase p => some (stepsRemark (p.name.getD "") p.steps.length)
    | .template _ => none

/-- Writes a build process with its templates resolved. -/
def legacy (x : Surroundings) (s : Subject) (maxFiles : Nat) : Session Unit := do
  let found ← find x "Process" s
  let handed : BuildProcess.Parameters :=
    Dictionary.ofEntries ((← parameterPairs s).map fun (k, v) => (k, .text v))
  let loader : BuildProcess.Loader := ⟨x.disk.provider (some found.root) [], { maxFiles }⟩
  Session.say (.status "Loading" found.path)
  let (outcome, journal) := (BuildProcess.load loader "" found.path (some handed)).run.run {}
  follow s [] found.root journal
  (phaseRemarks (← Session.ofExcept outcome)).forM Session.say
  let (text, journal) := (BuildProcess.serialize loader "" found.path (some handed)).run.run {}
  follow s [] found.root journal
  Session.write (← Session.ofExcept text)

/-- Carries out a command. -/
def Command.run (x : Surroundings) (c : Command) : Transcript :=
  Session.transcript <|
    match c with
    | .expand s f => CommandLine.expand x s f
    | .validate s list branch changed => CommandLine.validate x s list branch changed
    | .legacy s maxFiles => CommandLine.legacy x s maxFiles

end PipelineExpansion.CommandLine
