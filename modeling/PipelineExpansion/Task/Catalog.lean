import PipelineExpansion.Dictionary
import PipelineExpansion.Text.Lower

/-!
# Catalogs of tasks

A catalog knows tasks by name and version, written `name@version` in any case.
-/

namespace PipelineExpansion.Task

/-- The identity of a task. -/
structure Identity where
  id : String
  name : String
  version : String
deriving DecidableEq, Repr

/-- Tasks by name and version in lower case. -/
structure Catalog where
  tasks : Dictionary Identity

/-- The catalog of some tasks; of two under one name the later counts. -/
def Catalog.ofList (tasks : List (String × Identity)) : Catalog :=
  ⟨Dictionary.ofEntries (tasks.map fun (name, identity) => (Text.lower name, identity))⟩

/-- The task of a name and version. -/
def Catalog.find? (c : Catalog) (nameAndVersion : String) : Option Identity :=
  c.tasks.find? (Text.lower nameAndVersion)

end PipelineExpansion.Task
