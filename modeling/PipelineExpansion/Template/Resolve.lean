import PipelineExpansion.Template.Context
import PipelineExpansion.Template.Journal

/-!
# Following references

Composing a document may read other files, which may refer to others in turn. A `Resolve` step is kept in
the journal of a load. References may lead back to where they come from, so a step is given how deep they
may lead; one that leads deeper has no outcome at all, neither a value nor a diagnostic.
-/

namespace PipelineExpansion.Template

/-- A step that may read files. -/
abbrev Resolve (α : Type) := ExceptT Diagnostic (StateT Journal Option) α

namespace Resolve

/-- The step that leads too deep. -/
def unfinished {α : Type} : Resolve α := fun _ => none

/-- A step without effects. -/
def ofExcept {α : Type} : Except Diagnostic α → Resolve α
  | .ok a => pure a
  | .error d => throw d

/-- Names the file of a diagnostic that names none. -/
def inFile {α : Type} (name : String) (step : Resolve α) : Resolve α :=
  ExceptT.mk do return (← step.run).mapError (·.withFile name)

/-- A step that leads nowhere else. -/
def ofJournaled {α : Type} (step : Journaled α) : Resolve α := fun j => some (step j)

/-- Notes a message. -/
def note (message : String) : Resolve Unit := ofJournaled (Journaled.note message)

/-- Reads a file. -/
def readFile (files : Files) (repository : Option String) (path : String) : Resolve String :=
  ofJournaled (Journaled.readFile files repository path)

/-- Makes a file known: its number. -/
def addFile (l : Limits) (name : String) : Resolve Nat :=
  ofJournaled (Journaled.addFile l.maxFiles l.filesExceeded name)

/-- Runs a charged step from a given usage: its value and the usage behind it. -/
def charged {α : Type} (step : Charged α) (u : Usage) : Resolve (α × Usage) := do
  let (outcome, u) := step.run.run u
  return (← ofExcept outcome, u)

end Resolve
end PipelineExpansion.Template
