import PipelineExpansion.Dictionary
import PipelineExpansion.Text.Name

/-!
# Inputs of a task

The inputs of a task are named without regard to ASCII case. The spelling that is seen first is the one
that is written; inputs are in the order of their folded names.
-/

namespace PipelineExpansion.Task

/-- Inputs by their folded names; an entry holds the spelling and the value. -/
structure Inputs where
  entries : Dictionary (String × String)
deriving Repr

namespace Inputs

/-- No inputs. -/
def empty : Inputs := ⟨[]⟩

instance : EmptyCollection Inputs := ⟨empty⟩

/-- The value of an input. -/
def get? (inputs : Inputs) (name : String) : Option String :=
  (inputs.entries.find? (Text.fold name)).map (·.2)

/-- Whether there is an input of a name. -/
def contains (inputs : Inputs) (name : String) : Bool := inputs.entries.has (Text.fold name)

/-- Gives an input a value; one that is there keeps its spelling. -/
def insert (inputs : Inputs) (name value : String) : Inputs :=
  let spelling := ((inputs.entries.find? (Text.fold name)).map (·.1)).getD name
  ⟨inputs.entries.put (Text.fold name) (spelling, value)⟩

/-- Removes an input. -/
def remove (inputs : Inputs) (name : String) : Inputs := ⟨inputs.entries.remove (Text.fold name)⟩

/-- Gives an input a value: the value it had before, and the inputs behind the change. -/
def getThenInsert? (inputs : Inputs) (name value : String) : Option String × Inputs :=
  match inputs.entries.find? (Text.fold name) with
  | some (spelling, old) => (some old, ⟨inputs.entries.put (Text.fold name) (spelling, value)⟩)
  | none => (none, ⟨inputs.entries.put (Text.fold name) (name, value)⟩)

/-- Removes an input: the value it had before, and the inputs behind the change. -/
def getThenRemove? (inputs : Inputs) (name : String) : Option String × Inputs :=
  ((inputs.entries.find? (Text.fold name)).map (·.2), ⟨inputs.entries.remove (Text.fold name)⟩)

/-- The spellings and values, in the order of the folded names. -/
def toList (inputs : Inputs) : List (String × String) := inputs.entries.map (·.2)

/-- Gives inputs their values one after another. -/
def insertAll (inputs : Inputs) (pairs : List (String × String)) : Inputs :=
  pairs.foldl (fun i (name, value) => i.insert name value) inputs

/-- The inputs of some pairs. -/
def ofList (pairs : List (String × String)) : Inputs := insertAll ∅ pairs

/-- The number of inputs. -/
def size (inputs : Inputs) : Nat := inputs.entries.length

/-- Inputs are equal when their folded names and their values are, however they are spelled. -/
instance : BEq Inputs where
  beq a b := a.entries.map (fun (k, _, v) => (k, v)) == b.entries.map fun (k, _, v) => (k, v)

end Inputs
end PipelineExpansion.Task
