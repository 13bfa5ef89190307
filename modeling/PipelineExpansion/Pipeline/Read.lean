import PipelineExpansion.Pipeline.Parameters
import PipelineExpansion.Template.Evaluate
import PipelineExpansion.Template.Token.Load

/-!
# Reading templates

`readTemplate` finds the file of a reference, checks it against the schema, binds its parameters and
evaluates it. Expressions in it see its parameters and variables: those of the context, and over them the
ones it declares itself as far as they can be known beforehand.
-/

namespace PipelineExpansion.Pipeline

open Template (Context Entry Resolve Token Usage)

/-- A template that was read: its root without the declaration of parameters, the context for the
references in it, the name of its file, and what it has used up. -/
structure Loaded where
  token : Token
  context : Context
  name : String
  usage : Usage

/-- The variables that the expressions of a template see. -/
def visibleVariables (c : Context) (declared : Option Token) : Except Diagnostic Token := do
  let own ← (declared.map staticVariables).getD (.ok [])
  let all := own.foldl (fun pairs (name, value) => setPair pairs name value) c.vars
  return .ofPairs (all.map fun (name, value) => (name, .ofText value))

/-- A root without the declaration of parameters. -/
def withoutParameters : Token → Token
  | .mapping o entries => .mapping o (entries.filter fun (k, _) => k.name ≠ "parameters")
  | t => t

/-- Reads the template at a path in its own context: its token and what it has used up. -/
def loadTemplate (refs : References) (c : Context) (path : String) (parameters : Option Token)
    (definition : String) : Resolve (Token × Usage) := do
  let content ← Resolve.readFile c.files c.repository path
  let (_, usage) ← Resolve.charged (c.limits.chargeBytes content.utf8ByteSize) {}
  let file ← Resolve.addFile c.limits (Template.displayName path c.repository)
  let root ← Resolve.ofExcept (Token.ofText? (some file) content)
  Resolve.ofExcept (c.schema.validate definition root)
  let bound ← bindParameters refs c (root.get? "parameters") parameters
  let vars ← Resolve.ofExcept (visibleVariables c (root.get? "variables"))
  let names := Token.ofPairs [("parameters", bound), ("variables", vars)]
  Resolve.charged (Template.evaluate c.limits (withoutParameters root) names) usage

/-- Reads the template of a reference. -/
def readTemplate (refs : References) (c : Context) (reference : String) (parameters : Option Token)
    (definition : String) : Resolve Loaded := do
  let (path, repository) ← Resolve.ofExcept (c.locate reference)
  let name := Template.displayName path repository
  Resolve.note ("Loading template '" ++ name ++ "'")
  let child := c.child path repository
  let (token, usage) ← Resolve.inFile name (loadTemplate refs child path parameters definition)
  return { token, context := child, name, usage }

end PipelineExpansion.Pipeline
