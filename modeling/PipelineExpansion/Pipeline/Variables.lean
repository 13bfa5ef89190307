import PipelineExpansion.Pipeline.Reference

/-!
# Variables

Variables are given as a mapping, or as a sequence of variables, groups and templates. A later definition
of a name takes the place of the earlier one; a group that is there already is not added again.

`staticVariables` reads those variables that can be known before anything is evaluated.
-/

namespace PipelineExpansion.Pipeline

open Template (Context Entry Resolve Token)

/-- Puts a variable in place of the first one of its name, or at the end. -/
def setVariable (vars : List Variable) (v : Variable) : List Variable :=
  match vars with
  | [] => [v]
  | first :: rest =>
    if v.name?.any fun name => first.name?.any (Text.sameName · name) then v :: rest
    else first :: setVariable rest v

/-- Adds a group, unless it is there. -/
def addGroup (vars : List Variable) (name : String) : List Variable :=
  let present := vars.any fun
    | .group other => Text.sameName other name
    | _ => false
  if present then vars else vars ++ [.group name]

/-- The properties of an item of a sequence of variables. -/
structure VariableItem where
  name : Option String := none
  value : Option String := none
  readonly : Bool := false
  group : Option String := none
  template : Option String := none
  parameters : Option Token := none

/-- Reads a property of an item. -/
def VariableItem.read (item : VariableItem) (e : Entry) : Except Diagnostic VariableItem :=
  let (key, value) := e
  match key.name with
  | "name" => do return { item with name := some (← value.expectText "name") }
  | "value" => do return { item with value := some (← value.expectText "value") }
  | "readonly" => do return { item with readonly := ← value.expectBool "readonly" }
  | "group" => do return { item with group := some (← value.expectNonEmpty "group") }
  | "template" => do return { item with template := some (← value.expectNonEmpty "template") }
  | "parameters" => .ok { item with parameters := some value }
  | other => .error (key.fault ("Unexpected variable property '" ++ other ++ "'"))

/-- Adds what an item of a sequence of variables stands for. A group is only that, whatever else is
given; a template comes before a name. -/
def addVariableItem (refs : References) (c : Context) (vars : List Variable) (t : Token) :
    Resolve (List Variable) := do
  let entries ← Resolve.ofExcept (t.expectMapping "variables")
  let item ← Resolve.ofExcept (entries.foldlM VariableItem.read {})
  match item.group, item.template, item.name with
  | some group, _, _ => return addGroup vars group
  | none, some template, _ => refs.vars c vars template item.parameters
  | none, none, some name => return setVariable vars (.value name (item.value.getD "") item.readonly)
  | none, none, none => throw (t.fault "A variable requires a 'name'")

/-- Adds an entry of a mapping of variables. -/
def addVariableEntry (vars : List Variable) (e : Entry) : Except Diagnostic (List Variable) := do
  let name := e.1.name
  return setVariable vars (.value name (← e.2.expectText name) false)

/-- Adds the variables of a section. -/
def addVariables (refs : References) (c : Context) (vars : List Variable) (t : Token) :
    Resolve (List Variable) :=
  match t with
  | .null _ => return vars
  | .mapping _ entries => Resolve.ofExcept (entries.foldlM addVariableEntry vars)
  | t => do
    let items ← Resolve.ofExcept (t.expectSequence "variables")
    items.foldlM (addVariableItem refs c) vars

/-! ### Before evaluation -/

/-- Whether a text token holds an expression. -/
def hasOpenExpression (t : Token) : Bool := t.text?.any (Text.contains · "$\x7b\x7b")

/-- Whether an entry holds an expression in its key or its value. -/
def entryIsOpen (e : Entry) : Bool := Text.contains e.1.name "$\x7b\x7b" || hasOpenExpression e.2

/-- Gives a name its value, or adds it. -/
def setPair (pairs : List (String × String)) (name value : String) : List (String × String) :=
  match pairs with
  | [] => [(name, value)]
  | (n, v) :: rest =>
    if Text.sameName n name then (n, value) :: rest else (n, v) :: setPair rest name value

/-- Adds an entry of a mapping of variables, unless it holds an expression. -/
def addStaticEntry (pairs : List (String × String)) (e : Entry) :
    Except Diagnostic (List (String × String)) :=
  if entryIsOpen e then .ok pairs
  else do return setPair pairs e.1.name (← e.2.expectText e.1.name)

/-- Adds an item of a sequence of variables, if it is a name and a value without expressions. -/
def addStaticItem (pairs : List (String × String)) (t : Token) :
    Except Diagnostic (List (String × String)) :=
  match t.entries? with
  | none => .ok pairs
  | some entries =>
    if entries.any entryIsOpen then .ok pairs
    else
      match t.get? "name", t.get? "value" with
      | some name, some value => do
        let name ← name.expectText "name"
        return setPair pairs name (← value.expectText "value")
      | _, _ => .ok pairs

/-- The variables of a section that is not evaluated yet, as far as they can be known. -/
def staticVariables : Token → Except Diagnostic (List (String × String))
  | .mapping _ entries => entries.foldlM addStaticEntry []
  | .sequence _ items => items.foldlM addStaticItem []
  | _ => .ok []

/-! ### As tokens -/

/-- A variable as a token. -/
def Variable.toToken : Variable → Token
  | value name text readonly =>
    .ofPairs ([("name", .ofText name), ("value", .ofText text)]
      ++ if readonly then [("readonly", .ofBool true)] else [])
  | group name => .ofPairs [("group", .ofText name)]

/-- Variables as a token. -/
def variablesToken (vars : List Variable) : Token := .ofItems (vars.map Variable.toToken)

end PipelineExpansion.Pipeline
