import PipelineExpansion.Template.Token
import PipelineExpansion.Text.Pieces

/-!
# Schemas

A schema says for each kind of document which keys its root may have, and of which kinds their values may
be. Expressions and nulls are left to evaluation: a key that is an expression is passed over, and so is a
value that is one or is null.
-/

namespace PipelineExpansion.Template

/-- The kinds of value that a schema tells apart. -/
inductive ValueKind where
  | string
  | number
  | boolean
  | scalar
  | sequence
  | mapping
deriving DecidableEq, Repr

namespace ValueKind

/-- All kinds. -/
def all : List ValueKind := [string, number, boolean, scalar, sequence, mapping]

/-- The name of a kind. -/
def name : ValueKind → String
  | string => "string"
  | number => "number"
  | boolean => "boolean"
  | scalar => "scalar"
  | sequence => "sequence"
  | mapping => "mapping"

/-- The kind of a name. -/
def ofName? (s : String) : Option ValueKind := all.find? (·.name = s)

/-- Whether a token is of a kind. -/
def admits (kind : ValueKind) (t : Token) : Bool :=
  match kind with
  | scalar => t.isScalar
  | kind => t.kindName = kind.name

end ValueKind

/-- What the root of a kind of document may hold. A key without a section takes anything. -/
structure Definition where
  description : Option String := none
  keys : List String
  sections : Dictionary (List ValueKind) := []
deriving DecidableEq, Repr

/-- The definitions of the kinds of document, by name. -/
structure Schema where
  definitions : Dictionary Definition
deriving DecidableEq, Repr

/-- Whether a text is an expression and nothing else, by its first and last characters. -/
def looksLikeExpression (s : String) : Bool :=
  let body := Text.trim s
  (Text.stripPrefix? "$\x7b\x7b" body).isSome && (Text.stripSuffix? "\x7d\x7d" body).isSome

/-- Checks the value under a key. -/
def Definition.checkValue (d : Definition) (name : String) (value : Token) : Except Diagnostic Unit :=
  match d.sections.find? name with
  | none => .ok ()
  | some kinds =>
    if value.isNull || value.text?.any looksLikeExpression || kinds.any (·.admits value) then .ok ()
    else
      .error (value.fault ("Expected " ++ Text.join " or " (kinds.map (·.name)) ++ " for '" ++ name ++
        "', found " ++ value.kindName))

/-- Checks an entry. A key that differs from one in the schema by case alone is answered with a hint. -/
def Definition.checkEntry (d : Definition) (e : Entry) : Except Diagnostic Unit :=
  let (key, value) := e
  if looksLikeExpression key.name then .ok ()
  else if d.keys.contains key.name then d.checkValue key.name value
  else
    let fault := Diagnostic.shapeAt key.origin.span ("Unexpected value '" ++ key.name ++ "'")
    match d.keys.find? (Text.sameName · key.name) with
    | some close => .error (fault.withSuggestion ("did you mean '" ++ close ++ "'?"))
    | none => .error fault

/-- Checks the root of a document. -/
def Schema.validate (s : Schema) (definition : String) (root : Token) : Except Diagnostic Unit :=
  match s.definitions.find? definition with
  | none => .error (.meaning ("Unknown schema definition '" ++ definition ++ "'"))
  | some d =>
    match root.entries? with
    | some entries => entries.forM d.checkEntry
    | none =>
      .error (root.fault ("Expected a mapping at the root of a " ++ definition ++ ", found " ++
        root.kindName))

end PipelineExpansion.Template
