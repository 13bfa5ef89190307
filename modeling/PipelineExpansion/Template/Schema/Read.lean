import PipelineExpansion.Json.Parse
import PipelineExpansion.Template.Schema

/-!
# Schemas from JSON

A schema may be given as JSON: an object with `definitions`, each with `keys` and, where it has them, a
`description` and `sections`. Other members are passed over.
-/

namespace PipelineExpansion.Template.Schema

open Json (Reading)
open Json.Reading

/-- Takes a text. -/
private def textValue : Reading String := do
  match ← peek? with
  | some '"' => quoted
  | _ => refuse "a string"

/-- Takes a text, or null for none. -/
private def textOrNull : Reading (Option String) := do
  match ← peek? with
  | some 'n' => do
    word ['n', 'u', 'l', 'l']
    return none
  | _ => return some (← textValue)

/-- Takes a list of texts. -/
private def texts : Reading (List String) := do
  match ← peek? with
  | some '[' => arrayOf textValue
  | _ => refuse "a sequence"

/-- Takes a dictionary of values; of two with one name the later counts. -/
private def dictionary {α : Type} (value : Reading α) : Reading (Dictionary α) := do
  match ← peek? with
  | some '\x7b' =>
    objectOf [] fun (d : Dictionary α) name => do
      colon
      return d.put name (← value)
  | _ => refuse "a map"

/-- A definition whose kinds are still names: its description, its keys and its sections. -/
private abbrev Unresolved := Option String × List String × Dictionary (List String)

/-- The members of a definition that have been read. -/
private structure Draft where
  description : Option (Option String) := none
  keys : Option (List String) := none
  sections : Option (Dictionary (List String)) := none

/-- Takes the colon behind the name of a member, unless that has been read already. -/
private def once {α : Type} (present : Option α) (name : String) : Reading Unit := do
  if present.isSome then
    let _ ← peek?
    failHere ("duplicate field `" ++ name ++ "`")
  colon

/-- Takes a member of a definition. -/
private def member (d : Draft) : String → Reading Draft
  | "description" => do
    once d.description "description"
    return { d with description := some (← textOrNull) }
  | "keys" => do
    once d.keys "keys"
    return { d with keys := some (← texts) }
  | "sections" => do
    once d.sections "sections"
    return { d with sections := some (← dictionary texts) }
  | _ => do
    colon
    skip
    return d

/-- Takes a definition that lists the values of its members. -/
private def listedDefinition : Reading Unresolved := do
  step
  let description ← if ← itemFollows true then textOrNull else pure none
  if ← itemFollows false then
    let keys ← texts
    let sections ← if ← itemFollows false then dictionary texts else pure []
    endArray
    return (description, keys, sections)
  else
    endArray
    failHere "invalid length 1, expected struct Definition with 3 elements"

/-- Takes a definition. -/
private def definitionValue : Reading Unresolved := do
  match ← peek? with
  | some '\x7b' =>
    let d ← objectOf {} member
    match d.keys with
    | some keys => return (d.description.join, keys, d.sections.getD [])
    | none => failHere "missing field `keys`"
  | some '[' => listedDefinition
  | _ => refuse "struct Definition"

/-- Takes the definitions of a document. -/
private def definitionsValue : Reading (Dictionary Unresolved) := do
  match ← peek? with
  | some '\x7b' =>
    let found ← objectOf none fun found name => do
      if name = "definitions" then
        once found "definitions"
        return some (← dictionary definitionValue)
      else
        colon
        skip
        return found
    match found with
    | some definitions => return definitions
    | none => failHere "missing field `definitions`"
  | some '[' =>
    step
    if ← itemFollows true then
      let definitions ← dictionary definitionValue
      endArray
      return definitions
    else
      endArray
      failHere "invalid length 0, expected struct SchemaDocument with 1 element"
  | _ => refuse "struct SchemaDocument"

/-- The kinds of a section. -/
private def kindsOf (definition key : String) (names : List String) : Except Diagnostic (List ValueKind) :=
  names.mapM fun name =>
    match ValueKind.ofName? name with
    | some kind => .ok kind
    | none =>
      .error (.meaning ("Invalid template schema: unknown kind '" ++ name ++ "' for '" ++ key ++
        "' in '" ++ definition ++ "'"))

/-- The schema of a JSON text. -/
def ofJson? (source : String) : Except Diagnostic Schema := do
  let drafts ← (Json.read definitionsValue source).mapError fun f =>
    .meaning ("Invalid template schema: " ++ f.text source)
  let definitions ← drafts.mapM fun (name, description, keys, sections) => do
    let sections ← sections.mapM fun (key, kinds) => do return (key, ← kindsOf name key kinds)
    return (name, { description, keys, sections : Definition })
  return ⟨definitions⟩

end PipelineExpansion.Template.Schema
