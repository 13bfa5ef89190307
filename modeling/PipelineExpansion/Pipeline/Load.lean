import PipelineExpansion.Pipeline.Compose
import PipelineExpansion.Pipeline.Read
import PipelineExpansion.Template.Schema.Standard

/-!
# Loading pipelines

`references n` follows references up to `n` deep: a template that it reads may refer to others that are
read with `references (n - 1)`, in its body and in the default values of its parameters. `load` reads a
pipeline with all it refers to. A limit on the number of files bounds the depth, since every template on
the way is a file; without a limit the depth is bounded by `deepest`.
-/

namespace PipelineExpansion.Pipeline

open Template (Context Resolve Schema Token)

/-- A list under a key of a template, composed in the context of the template; what fails there is in its
file. -/
def withSection {α : Type} (loaded : Loaded) (key : String) (absent : α)
    (compose : Context → Token → Resolve α) : Resolve α :=
  match loaded.token.get? key with
  | none => return absent
  | some t => compose loaded.context t

/-- The steps of a template. That they are a sequence is for the document that refers to it to see. -/
def templateSteps (refs : References) (loaded : Loaded) : Resolve (List Step) :=
  withSection loaded "steps" [] fun c t => do
    let items ← Resolve.ofExcept (t.expectSequence "steps")
    Resolve.inFile loaded.name (stepsOfItems refs c items)

/-- The context of a root document or of one that is extended: its repository resources are aliases in it,
unless they are known already. -/
def withOwnRepositories (loaded : Loaded) : Except Diagnostic Context := do
  return loaded.context.withRepositories (← repositoryAliases loaded.token)

/-- The pipeline of a reference. -/
def pipelineOf (refs : References) (c : Context) (reference : String) (parameters : Option Token)
    (definition : String) : Resolve Pipeline := do
  let loaded ← readTemplate refs c reference parameters definition
  let own ← Resolve.ofExcept (withOwnRepositories loaded)
  Resolve.inFile loaded.name (ofToken? refs own loaded.token)

/-- What references yield that may lead `n` deep. -/
def references : Nat → References
  | 0 => .none
  | n + 1 =>
    let refs := references n
    { steps := fun c reference parameters => do
        templateSteps refs (← readTemplate refs c reference parameters Schema.stepRoot)
      jobs := fun c reference parameters => do
        let loaded ← readTemplate refs c reference parameters Schema.jobRoot
        withSection loaded "jobs" [] fun c t => Resolve.inFile loaded.name (jobList refs c t)
      stages := fun c reference parameters => do
        let loaded ← readTemplate refs c reference parameters Schema.stageRoot
        withSection loaded "stages" [] fun c t => Resolve.inFile loaded.name (stageList refs c t)
      vars := fun c vars reference parameters => do
        let loaded ← readTemplate refs c reference parameters Schema.variableRoot
        withSection loaded "variables" vars fun c t =>
          Resolve.inFile loaded.name (addVariables refs c vars t)
      pipeline := fun c reference parameters =>
        pipelineOf refs c reference parameters Schema.extendRoot }

/-- How deep references may lead where the number of files is not limited. -/
def deepest : Nat := 65536

/-- How deep references may lead. -/
def nesting (l : Template.Limits) : Nat := if l.maxFiles = 0 then deepest else l.maxFiles + 1

/-- What references in a context yield. -/
def referencesIn (c : Context) : References := references (nesting c.limits)

/-- Loads the pipeline at a path, with values for its parameters. -/
def load (c : Context) (path : String) (parameters : Option Token) : Resolve Pipeline :=
  pipelineOf (referencesIn c) c path parameters Schema.pipelineRoot

end PipelineExpansion.Pipeline
