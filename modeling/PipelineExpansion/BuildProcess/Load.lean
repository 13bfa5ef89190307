import PipelineExpansion.BuildProcess.Document
import PipelineExpansion.BuildProcess.FrontMatter
import PipelineExpansion.BuildProcess.Mustache
import PipelineExpansion.Template.Context
import PipelineExpansion.Template.Journal
import PipelineExpansion.Text.Name
import PipelineExpansion.Yaml.Render

/-!
# Loading build processes

`resolve` takes a process and puts what its templates hold in their place; references are relative to the
file they stand in. `load` goes on from there: the steps at the root become a phase, a checkout at the
beginning of a phase becomes variables, and phases without a name get one. `serialize` writes the process
as it is after `resolve`.
-/

namespace PipelineExpansion.BuildProcess

open Template (Journaled Limits)
open Yaml (Reader)

/-- What a process is loaded with. -/
structure Loader where
  files : Files
  limits : Limits := {}

/-- A document, and the name and the directory of its file. -/
structure LoadedFile (α : Type) where
  name : String
  directory : String
  document : α

/-- The diagnostic of too many files. -/
def tooManyFiles (l : Limits) : Diagnostic :=
  .limit ("A YAML definition may not exceed " ++ toString l.maxFiles ++ " file references.")

/-- The values for the tags of a document: those in front of it, and over them those that are handed to
it. -/
def mergedValues (front handed : Option Parameters) : Parameters :=
  (handed.getD []).foldl (fun values (k, v) => Dictionary.put values k v) (front.getD [])

/-- The text of a document, with its tags replaced. -/
def documentText (l : Limits) (name content : String) (handed : Option Parameters) :
    Except Diagnostic String := do
  let (front, body) ← frontMatter name content
  render body (mergedValues front handed) l.maxResultLength

/-- Reads a document from a text. -/
def readDocument {α : Type} (read : Reader α) (text : String) : Except Diagnostic α := do
  (read.run.run (.ofEvents (← Yaml.events text))).1

/-- Loads the document at a path, seen from a directory. -/
def loadFile {α : Type} (x : Loader) (directory path : String) (handed : Option Parameters)
    (read : Reader α) : Journaled (LoadedFile α) := do
  let name := Template.relativeTo directory path
  let _ ← Journaled.addFile x.limits.maxFiles (tooManyFiles x.limits) name
  let document ← Journaled.inFile name do
    let content ← Journaled.readFile x.files none name
    let text ← Journaled.ofExcept (documentText x.limits name content handed)
    Journaled.note (name ++ " after mustache replacement:\n" ++ text)
    Journaled.ofExcept (readDocument read text)
  return { name, directory := (Template.directoryOf name).getD "", document }

/-! ### Overrides -/

/-- The steps that a step becomes when groups are replaced. -/
def Step.override (o : Overrides) : Step → List Step
  | .group name steps =>
    match o.find? name with
    | some replacement => replacement.map .simple
    | none => [.group name steps]
  | s => [s]

/-- Steps with their groups replaced, where there are overrides for them. -/
def overrideSteps (o : Overrides) (steps : List Step) : List Step := steps.flatMap (Step.override o)

/-- A phase with its groups replaced. -/
def Phase.override (o : Overrides) (p : Phase) : Phase := { p with steps := overrideSteps o p.steps }

/-- A phase with its groups replaced by the overrides for its name. -/
def Phase.select (s : Selector) (p : Phase) : Phase :=
  if p.name = some s.name then p.override s.overrides else p

/-- A phase with its groups replaced as a reference says: by the first overrides for its name, and then by
those for all phases. -/
def PhasesReference.overridePhase (r : PhasesReference) (p : Phase) : Phase :=
  (r.selectors.foldl (fun p s => p.select s) p).override r.overrides

/-- An entry of a list of phases, with the groups of a phase replaced. -/
def PhaseEntry.mapPhase (f : Phase → Phase) : PhaseEntry → PhaseEntry
  | .phase p => .phase (f p)
  | .template r => .template r

/-! ### Templates -/

/-- Puts variables in place of templates. -/
def resolveVariables (x : Loader) (directory : String) : List Variable → Journaled (List Variable)
  | [] => return []
  | .value v :: rest => return .value v :: (← resolveVariables x directory rest)
  | .template path parameters :: rest => do
    let file ← loadFile x directory path (some parameters) readVariablesTemplate
    return file.document.vars.map .value ++ (← resolveVariables x directory rest)

/-- Puts steps in place of templates. What a template of steps holds has no groups to override. -/
def resolveSteps (x : Loader) (directory : String) : List Step → Journaled (List Step)
  | [] => return []
  | .template r :: rest => do
    let file ← loadFile x directory r.path (some r.parameters) readStepsTemplate
    return overrideSteps r.overrides (file.document.steps.map .simple)
      ++ (← resolveSteps x directory rest)
  | s :: rest => return s :: (← resolveSteps x directory rest)

/-- Puts variables and steps in place of the templates in a phase. -/
def resolvePhase (x : Loader) (directory : String) (p : Phase) : Journaled Phase := do
  let vars ← resolveVariables x directory p.vars
  let steps ← resolveSteps x directory p.steps
  return { p with vars, steps }

/-- Puts variables and steps in place of the templates in phases. -/
def resolveAll (x : Loader) (directory : String) : List Phase → Journaled (List Phase)
  | [] => return []
  | p :: rest => do
    let p ← resolvePhase x directory p
    return p :: (← resolveAll x directory rest)

/-- The phases of a template that a reference takes: its phases, or its steps as a phase without a
name. -/
def resolveReference (x : Loader) (directory : String) (r : PhasesReference) :
    Journaled (List PhaseEntry) := do
  let file ← loadFile x directory r.path (some r.parameters) readPhasesTemplate
  let steps ←
    match file.document.steps with
    | some steps => some <$> resolveSteps x file.directory steps
    | none => pure none
  let phases ←
    match file.document.phases with
    | some phases => some <$> resolveAll x file.directory phases
    | none => pure none
  match phases, steps with
  | some phases, _ => return phases.map fun p => .phase (r.overridePhase p)
  | none, some steps => return [.phase { steps := overrideSteps r.overrides steps }]
  | none, none => return []

/-- Puts phases in place of templates. -/
def resolvePhases (x : Loader) (directory : String) : List PhaseEntry → Journaled (List PhaseEntry)
  | [] => return []
  | .template r :: rest => do
    let own ← resolveReference x directory r
    return own ++ (← resolvePhases x directory rest)
  | .phase p :: rest => do
    let p ← resolvePhase x directory p
    return .phase p :: (← resolvePhases x directory rest)

/-- Resources with those of a template added whose names are new. -/
def mergeResources (own : List Resource) (added : List Resource) : List Resource :=
  added.foldl (fun all r => if all.any (·.name = r.name) then all else all ++ [r]) own

/-- A process with what its templates hold in their place. -/
def resolve (x : Loader) (directory : String) (p : BuildProcess) : Journaled BuildProcess := do
  match p.template with
  | some r => do
    let file ← loadFile x directory r.path (some r.parameters) readProcessTemplate
    let t := file.document
    let resources := some (mergeResources (p.resources.getD []) (t.resources.getD []))
    match t.phases, t.steps with
    | some phases, steps => do
      let phases ← resolvePhases x file.directory phases
      return { p with
        template := none, resources
        phases := some (phases.map (·.mapPhase r.overridePhase))
        steps := steps.map (overrideSteps r.overrides) }
    | none, some steps => do
      let steps ← resolveSteps x file.directory steps
      return { p with
        template := none, resources, phases := none, steps := some (overrideSteps r.overrides steps) }
    | none, none => return { p with template := none, resources, phases := none, steps := none }
  | none =>
    match p.phases with
    | some phases => return { p with phases := some (← resolvePhases x directory phases) }
    | none => do
      let vars ←
        match p.vars with
        | some vars => some <$> resolveVariables x directory vars
        | none => pure none
      let steps ←
        match p.steps with
        | some steps => some <$> resolveSteps x directory steps
        | none => pure none
      return { p with vars, steps }

/-! ### Phases -/

/-- A process whose steps at the root, with the properties and variables there, have become its phases. -/
def gatherPhase (p : BuildProcess) : BuildProcess :=
  match p.steps with
  | none => p
  | some steps =>
    { p with
      steps := none, properties := {}, vars := none
      phases := some [.phase ⟨p.name, p.properties, p.vars.getD [], steps⟩] }

/-- The variables that a checkout stands for. -/
def CheckoutStep.vars (c : CheckoutStep) : List ValueVariable :=
  if c.repository = "none" then [⟨"build.syncSources", some "false", false⟩]
  else
    let given (name : String) (value : Option String) : List ValueVariable :=
      (value.map fun v => ⟨name, some v, false⟩).toList
    given "build.repository.clean" c.clean
      ++ given "agent.source.git.shallowFetchDepth" c.fetchDepth
      ++ given "agent.source.git.lfs" c.lfs

/-- Whether a step is a checkout. -/
def Step.isCheckout : Step → Bool
  | .simple (.checkout _) => true
  | _ => false

/-- A phase with variables in place of a checkout at its beginning; a checkout anywhere else is refused. -/
def Phase.expandCheckout (p : Phase) : Except Diagnostic Phase :=
  let p :=
    match p.steps with
    | .simple (.checkout c) :: rest =>
      { p with vars := p.vars ++ c.vars.map .value, steps := rest }
    | _ => p
  if p.steps.any Step.isCheckout then
    .error (.meaning "Step 'checkout' is currently only supported as the first step within a phase.")
  else .ok p

/-- An entry of a list of phases with the checkout of a phase expanded. -/
def PhaseEntry.expandCheckout : PhaseEntry → Except Diagnostic PhaseEntry
  | .phase p => do return .phase (← p.expandCheckout)
  | .template r => .ok (.template r)

/-- The name of a phase among entries. -/
def PhaseEntry.name? : PhaseEntry → Option String
  | .phase p => p.name
  | .template _ => none

/-- Gives phases without a name one that is not in use; `used` holds folded names. -/
def namePhases (used : List String) : List PhaseEntry → List PhaseEntry
  | [] => []
  | .phase p :: rest =>
    if p.name.all (·.isEmpty) then
      let name := Text.freshName "Phase" used
      .phase { p with name := some name } :: namePhases (Text.fold name :: used) rest
    else .phase p :: namePhases used rest
  | .template r :: rest => .template r :: namePhases used rest

/-- Phases with names, none of which is given twice. -/
def withNames (phases : List PhaseEntry) : List PhaseEntry :=
  namePhases (phases.filterMap fun e => e.name?.map Text.fold) phases

/-! ### Processes -/

/-- Loads the process at a path, seen from a directory, and puts what its templates hold in their
place. -/
def loadResolved (x : Loader) (directory path : String) (handed : Option Parameters) :
    Journaled (String × BuildProcess) := do
  let file ← loadFile x directory path handed read
  return (file.name, ← resolve x file.directory file.document)

/-- Loads the process at a path, seen from a directory. -/
def load (x : Loader) (directory path : String) (handed : Option Parameters) : Journaled BuildProcess := do
  let (name, p) ← loadResolved x directory path handed
  let p := gatherPhase p
  let phases ← Journaled.ofExcept ((p.phases.getD []).mapM PhaseEntry.expandCheckout)
  Journaled.note ("Resolved process '" ++ name ++ "'")
  return { p with phases := some (withNames phases) }

/-- Loads the process at a path, seen from a directory, and writes it with what its templates hold in
their place. -/
def serialize (x : Loader) (directory path : String) (handed : Option Parameters) :
    Journaled String := do
  return (← loadResolved x directory path handed).2.toTree.render

end PipelineExpansion.BuildProcess
