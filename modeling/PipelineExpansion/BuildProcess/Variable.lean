import PipelineExpansion.BuildProcess.Step

/-!
# Variables of build processes

Variables are a mapping of names to values, or a sequence of variables and templates. They are written as
a mapping where that says it all.
-/

namespace PipelineExpansion.BuildProcess

open Yaml (Reader Scalar Tree)

/-- Reads an entry of a mapping of variables. -/
def readPair : Reader ValueVariable := do
  let name ← Reader.nonEmpty
  return { name, value := some (← Reader.scalar).text }

/-- Reads a property of a variable. -/
def ValueVariable.property (v : ValueVariable) : Reader ValueVariable := do
  let key ← Reader.scalar
  match key.text with
  | "value" => return { v with value := some (← Reader.scalar).text }
  | "verbatim" => return { v with verbatim := ← Reader.boolean }
  | _ => unexpectedProperty key

/-- Reads the rest of a variable. -/
def readNamed : Reader ValueVariable := do
  let name ← Reader.nonEmpty
  Reader.untilEnd .mappingEnd { name } ValueVariable.property

/-- The fault of an item that is not known. -/
def unknownVariable {α : Type} (first : Scalar) : Reader α :=
  Reader.failAt (some first.span) ("Unknown variable type: '" ++ first.text ++ "'")

/-- Reads an item of a sequence of variables where templates may not be. -/
def readSimpleVariable : Reader ValueVariable := do
  let _ ← Reader.expect .mappingStart
  let first ← Reader.scalar
  match first.text with
  | "name" => readNamed
  | "template" =>
    Reader.failAt (some first.span) "A variables template cannot reference another variables 'template'."
  | _ => unknownVariable first

/-- Reads an item of a sequence of variables. -/
def readVariable : Reader Variable := do
  let _ ← Reader.expect .mappingStart
  let first ← Reader.scalar
  match first.text with
  | "name" => return .value (← readNamed)
  | "template" => do
    let path ← Reader.nonEmpty
    let parameters ← Reader.untilEnd .mappingEnd [] fun _ => do
      let key ← Reader.scalar
      if key.text = "parameters" then Reader.mapping 1 else unexpectedProperty key
    return .template path parameters
  | _ => unknownVariable first

/-- Reads a mapping of variables. -/
def readPairs : Reader (List ValueVariable) := do
  let read ← Reader.mappingOf [] fun vs => return (← readPair) :: vs
  return read.reverse

/-- Reads variables without templates. -/
def readSimpleVariables : Reader (List ValueVariable) := do
  if ← Reader.comes .mappingStart then readPairs
  else Reader.sequenceOf readSimpleVariable

/-- Reads variables. -/
def readVariables : Reader (List Variable) := do
  if ← Reader.comes .mappingStart then return (← readPairs).map .value
  else Reader.sequenceOf readVariable

/-! ### Writing -/

/-- Whether a variable can be an entry of a mapping. -/
def Variable.isPair : Variable → Bool
  | value v => !v.verbatim && v.value.isSome
  | template .. => false

/-- A variable as an entry of a mapping. -/
def Variable.pairEntry : Variable → List (String × Tree)
  | value v => [(v.name, .text (v.value.getD ""))]
  | template .. => []

/-- A variable as an item of a sequence. -/
def Variable.toTree : Variable → Tree
  | value v =>
    .ofEntries ([("name", .text v.name)] ++ textEntry "value" v.value
      ++ if v.verbatim then [("verbatim", .text "true")] else [])
  | template path parameters => .ofEntries ([("template", .text path)] ++ parametersEntry parameters)

/-- Variables as a tree. -/
def variablesTree (vars : List Variable) : Tree :=
  if vars.all Variable.isPair then .ofEntries (vars.flatMap Variable.pairEntry)
  else .sequence (vars.map Variable.toTree)

end PipelineExpansion.BuildProcess
