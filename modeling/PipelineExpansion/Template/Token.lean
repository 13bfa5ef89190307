import PipelineExpansion.Diagnostic
import PipelineExpansion.Json
import PipelineExpansion.Text.Blank
import PipelineExpansion.Text.Name

/-!
# Template tokens

A template document is a tree of tokens: scalars, sequences, and mappings whose keys are texts. Every
token knows where it comes from. Evaluation rewrites the tree, the composers read their objects from it,
and objects can be turned back into tokens to be handed on as parameters.
-/

namespace PipelineExpansion.Template

/-- Where a token comes from: the stretch of a file, and the number of that file. -/
structure Origin where
  span : Option Yaml.Span
  file : Option Nat
deriving DecidableEq, Repr, Inhabited

/-- The origin of a token that was not read from a file. -/
def Origin.unknown : Origin := ⟨none, none⟩

/-- A key of a mapping. -/
structure Key where
  origin : Origin
  name : String
deriving DecidableEq, Repr

/-- A fault in the shape of a document, at a key. -/
def Key.fault (key : Key) (message : String) : Diagnostic := .shapeAt key.origin.span message

/-- A node of a template document. -/
inductive Token where
  | null (origin : Origin)
  | boolean (origin : Origin) (value : Bool)
  | number (origin : Origin) (value : Binary64)
  | text (origin : Origin) (value : String)
  | sequence (origin : Origin) (items : List Token)
  | mapping (origin : Origin) (entries : List (Key × Token))
deriving Repr, BEq, Inhabited

/-- An entry of a mapping. -/
abbrev Entry := Key × Token

namespace Token

/-- Where a token comes from. -/
def origin : Token → Origin
  | null o | boolean o _ | number o _ | text o _ | sequence o _ | mapping o _ => o

/-- A token with another origin. -/
def withOrigin (o : Origin) : Token → Token
  | null _ => null o
  | boolean _ b => boolean o b
  | number _ n => number o n
  | text _ s => text o s
  | sequence _ items => sequence o items
  | mapping _ entries => mapping o entries

/-- The stretch a token was read from. -/
def span (t : Token) : Option Yaml.Span := t.origin.span

/-- Gives a token without a place the origin of another. -/
def locatedAt (t other : Token) : Token :=
  if t.span.isNone then t.withOrigin other.origin else t

/-- A null without an origin. -/
def ofNull : Token := .null .unknown

/-- A truth value without an origin. -/
def ofBool (b : Bool) : Token := .boolean .unknown b

/-- A number without an origin. -/
def ofNumber (n : Binary64) : Token := .number .unknown n

/-- A whole number without an origin. -/
def ofInt (n : Int) : Token := .number .unknown (.ofInt n)

/-- A text without an origin. -/
def ofText (s : String) : Token := .text .unknown s

/-- A sequence without an origin. -/
def ofItems (items : List Token) : Token := .sequence .unknown items

/-- A mapping without an origin, in the order of the pairs. -/
def ofPairs (pairs : List (String × Token)) : Token :=
  .mapping .unknown (pairs.map fun (name, value) => (⟨.unknown, name⟩, value))

/-- Whether a token is null. -/
def isNull : Token → Bool
  | null _ => true
  | _ => false

/-- The text of a text token. -/
def text? : Token → Option String
  | text _ s => some s
  | _ => none

/-- The items of a sequence. -/
def items? : Token → Option (List Token)
  | sequence _ items => some items
  | _ => none

/-- The entries of a mapping. -/
def entries? : Token → Option (List Entry)
  | mapping _ entries => some entries
  | _ => none

/-- The value under a key of a mapping. -/
def get? (t : Token) (name : String) : Option Token := do
  let entries ← t.entries?
  (entries.find? fun (k, _) => k.name = name).map (·.2)

/-- The value under a key, whatever the case of its ASCII letters: the first such entry. -/
def lookup? (t : Token) (name : String) : Option Token := do
  let entries ← t.entries?
  (entries.find? fun (k, _) => Text.sameName k.name name).map (·.2)

/-- The name of a token's kind. -/
def kindName : Token → String
  | null _ => "null"
  | boolean .. => "boolean"
  | number .. => "number"
  | text .. => "string"
  | sequence .. => "sequence"
  | mapping .. => "mapping"

/-- Whether a token is no collection. -/
def isScalar : Token → Bool
  | sequence .. | mapping .. => false
  | _ => true

/-- Whether a token counts as true: null, false, zero, NaN and the empty text do not. -/
def truthy : Token → Bool
  | null _ => false
  | boolean _ b => b
  | number _ n => !n.isZero && n ≠ .nan
  | text _ s => !s.isEmpty
  | sequence .. | mapping .. => true

/-- The number a scalar stands for: null and blank texts are zero, truth values zero or one. -/
def number? : Token → Option Binary64
  | null _ => some (.zero false)
  | boolean _ b => some (.ofInt (if b then 1 else 0))
  | number _ n => some n
  | text _ s =>
    let body := Text.trim s
    if body.isEmpty then some (.zero false) else Binary64.ofString? body
  | sequence .. | mapping .. => none

end Token

/-- The whole number that a number is shown as: it has no fraction and at most fifteen full digits. -/
def shownWhole? (n : Binary64) : Option Int :=
  n.toInt?.filter fun i => i.natAbs < 9000000000000000

/-- The text of a number: whole ones without a point, others with all their places. -/
def numberText (n : Binary64) : String :=
  match shownWhole? n with
  | some i => toString i
  | none => n.positional

namespace Token

/-- The text of a scalar; collections have none. -/
def display? : Token → Option String
  | null _ => some ""
  | boolean _ b => some (if b then "true" else "false")
  | number _ n => some (numberText n)
  | text _ s => some s
  | sequence .. | mapping .. => none

/-! ### JSON -/

/-- A number as JSON; infinity and NaN become null. -/
def numberJson (n : Binary64) : Json :=
  match shownWhole? n with
  | some i => .whole i
  | none => if n.isFinite then .number n else .null

mutual

/-- A token as JSON. The members of objects are in ascending order. -/
def toJson : Token → Json
  | null _ => .null
  | boolean _ b => .boolean b
  | number _ n => numberJson n
  | text _ s => .text s
  | sequence _ items => .array (itemsJson items)
  | mapping _ entries => .object (Dictionary.ofEntries (entriesJson entries))

/-- Items as JSON. -/
def itemsJson : List Token → List Json
  | [] => []
  | t :: rest => t.toJson :: itemsJson rest

/-- Entries as JSON, in their own order. -/
def entriesJson : List (Key × Token) → List (String × Json)
  | [] => []
  | (k, t) :: rest => (k.name, t.toJson) :: entriesJson rest

end

mutual

/-- JSON as a token. -/
def ofJson : Json → Token
  | .null => ofNull
  | .boolean b => ofBool b
  | .whole n => ofInt n
  | .number n => ofNumber n
  | .text s => ofText s
  | .array items => ofItems (ofJsonItems items)
  | .object members => .mapping .unknown (ofJsonMembers members)

/-- Items of an array as tokens. -/
def ofJsonItems : List Json → List Token
  | [] => []
  | v :: rest => ofJson v :: ofJsonItems rest

/-- Members of an object as entries. -/
def ofJsonMembers : List (String × Json) → List (Key × Token)
  | [] => []
  | (k, v) :: rest => (⟨.unknown, k⟩, ofJson v) :: ofJsonMembers rest

end

/-! ### Expectations

Each of these reads a token as one kind of value; `what` names the property in the diagnostic. -/

/-- A fault in the shape of a document, at a token. -/
def fault (t : Token) (message : String) : Diagnostic := .shapeAt t.span message

/-- The entries of a mapping. -/
def expectMapping (t : Token) (what : String) : Except Diagnostic (List Entry) :=
  match t.entries? with
  | some entries => .ok entries
  | none => .error (t.fault ("Expected a mapping for '" ++ what ++ "', found " ++ t.kindName))

/-- The items of a sequence. -/
def expectSequence (t : Token) (what : String) : Except Diagnostic (List Token) :=
  match t.items? with
  | some items => .ok items
  | none => .error (t.fault ("Expected a sequence for '" ++ what ++ "', found " ++ t.kindName))

/-- The text of a scalar. -/
def expectText (t : Token) (what : String) : Except Diagnostic String :=
  match t.display? with
  | some s => .ok s
  | none => .error (t.fault ("Expected a string for '" ++ what ++ "', found " ++ t.kindName))

/-- The text of a scalar, which must not be empty. -/
def expectNonEmpty (t : Token) (what : String) : Except Diagnostic String := do
  let s ← t.expectText what
  if s.isEmpty then throw (t.fault ("Expected a non-empty string for '" ++ what ++ "'"))
  return s

/-- A truth value, or one of the words for it in any case. -/
def expectBool (t : Token) (what : String) : Except Diagnostic Bool :=
  let refuse := .error (t.fault ("Expected a boolean for '" ++ what ++ "'"))
  match t with
  | .boolean _ b => .ok b
  | .text _ s =>
    if Text.sameName s "true" then .ok true
    else if Text.sameName s "false" then .ok false
    else refuse
  | _ => refuse

/-- The least and the greatest whole number of 64 bits. -/
def wholeBounds : Int × Int := (-9223372036854775808, 9223372036854775807)

/-- A whole number, within 64 bits. -/
def expectInt (t : Token) (what : String) : Except Diagnostic Int :=
  match t.number? with
  | some n =>
    if n.toInt?.isSome && !t.isNull then .ok (n.saturate wholeBounds.1 wholeBounds.2)
    else .error (t.fault ("Expected an integer for '" ++ what ++ "'"))
  | none => .error (t.fault ("Expected an integer for '" ++ what ++ "'"))

/-- The texts of a sequence of scalars, or of one scalar; null has none. -/
def expectTexts (t : Token) (what : String) : Except Diagnostic (List String) :=
  match t with
  | .null _ => .ok []
  | .sequence _ items => items.mapM (·.expectText what)
  | t => (t.expectText what).map ([·])

/-- The names and texts of a mapping of scalars; null has none. -/
def expectTextMap (t : Token) (what : String) : Except Diagnostic (List (String × String)) :=
  if t.isNull then .ok []
  else do
    let entries ← t.expectMapping what
    entries.mapM fun (k, v) => do return (k.name, ← v.expectText what)

end Token
end PipelineExpansion.Template
