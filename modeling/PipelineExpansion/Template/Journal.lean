import PipelineExpansion.Files
import PipelineExpansion.Template.Limits

/-!
# Journals

A load reads files and makes notes on its progress. What it has done is kept in a journal, which outlives
a failure.
-/

namespace PipelineExpansion.Template

/-- What has happened in a load. -/
structure Journal where
  /-- The files that were asked for. -/
  reads : List (Option String × String) := []
  /-- The names of the files that were read, in the order of their numbers. -/
  files : List String := []
  /-- Notes on the progress, for the reader of a log. -/
  notes : List String := []
deriving DecidableEq, Repr

/-- A step that is kept in a journal. -/
abbrev Journaled (α : Type) := ExceptT Diagnostic (StateM Journal) α

namespace Journaled

/-- A step without effects. -/
def ofExcept {α : Type} : Except Diagnostic α → Journaled α
  | .ok a => pure a
  | .error d => throw d

/-- Names the file of a diagnostic that names none. -/
def inFile {α : Type} (name : String) (step : Journaled α) : Journaled α :=
  ExceptT.mk do return (← step.run).mapError (·.withFile name)

/-- Notes a message. -/
def note (message : String) : Journaled Unit :=
  modify fun j => { j with notes := j.notes ++ [message] }

/-- Reads a file. -/
def readFile (files : Files) (repository : Option String) (path : String) : Journaled String := do
  modify fun j => { j with reads := j.reads ++ [(repository, path)] }
  ofExcept ((files.read repository path).mapError (·.diagnostic))

/-- Makes a file known, unless that passes a limit: its number. -/
def addFile (maximum : Nat) (exceeded : Diagnostic) (name : String) : Journaled Nat := do
  let number := (← get).files.length
  modify fun j => { j with files := j.files ++ [name] }
  if 0 < maximum && maximum < number + 1 then throw exceeded
  return number

end Journaled
end PipelineExpansion.Template
