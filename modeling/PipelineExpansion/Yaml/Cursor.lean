import PipelineExpansion.Text.Blank
import PipelineExpansion.Text.Name
import PipelineExpansion.Yaml.Event
import PipelineExpansion.Yaml.Graph

/-!
# Reading values off the events of a document

A `Cursor` stands before the events that are still to be read. The readers take scalars and collections
from it; one that fails leaves the cursor behind the event it refused. Loops over the entries of a
collection end because every entry takes an event.
-/

namespace PipelineExpansion.Yaml

/-- The events still to be read, and the stretch of the document's last event. -/
structure Cursor where
  rest : List Spanned
  last : Option Span

/-- A step of reading. What it has taken stays taken when it fails. -/
abbrev Reader (α : Type) := ExceptT Diagnostic (StateM Cursor) α

/-- A scalar with its stretch. -/
structure Scalar where
  text : String
  plain : Bool
  span : Span
deriving DecidableEq, Repr

/-- Whether a scalar is null: it is plain, and empty or one of the words for null. -/
def Scalar.isNull (s : Scalar) : Bool :=
  s.plain && ["", "~", "null", "Null", "NULL"].contains s.text

/-- The cursor before the events of a document. -/
def Cursor.ofEvents (events : List Spanned) : Cursor := ⟨events, events.getLast?.map (·.span)⟩

/-- Whether all events have been read. -/
def Cursor.isAtEnd (c : Cursor) : Bool := c.rest.isEmpty

/-- The stretch of the next event, of the last one when all have been read. -/
def Cursor.span (c : Cursor) : Option Span :=
  match c.rest with
  | next :: _ => some next.span
  | [] => c.last

/-- A whole number as one of 64 bits, if it is among them. -/
def checked (n : Int) : Option Int64 :=
  if Int64.minValue.toInt ≤ n && n ≤ Int64.maxValue.toInt then some (.ofInt n) else none

/-- The value of decimal digits as a number of 64 bits. It is given up at the first product or sum that
is none. -/
def int64? (digits : List Char) : Option Int64 :=
  digits.foldlM (fun n c => do
    let tens ← checked (n.toInt * 10)
    checked (tens.toInt + ((c.toNat - '0'.toNat : Nat) : Int))) 0

/-- A whole number of 32 bits: an optional sign and digits, among which commas may stand but not in front
of them. The sign is put to the number while it still has 64 bits. -/
def int32? (s : String) : Option Int :=
  let body := (Text.dropTrailingBlanks (Text.dropBlanks s.toList))
  let (negative, digits) := Binary64.signed body
  if digits.isEmpty || digits.head? = some ',' || !digits.all fun c => c.isDigit || c = ',' then none
  else do
    let magnitude ← int64? (digits.filter (· ≠ ','))
    let value := if negative then -magnitude else magnitude
    if -2147483648 ≤ value && value ≤ 2147483647 then some value.toInt else none

/-- How the names of a flat mapping are compared. -/
inductive NameOrder where
  | exact
  | ignoreCase
deriving DecidableEq, Repr

/-- Whether two names count as one. -/
def NameOrder.same : NameOrder → String → String → Bool
  | exact, a, b => a = b
  | ignoreCase, a, b => Text.sameName a b

/-- How deeply the collections of a graph may be nested. -/
def maxDepth : Nat := 10

namespace Reader

/-- The next event, which stays. -/
def peek : Reader (Option Spanned) := return (← get).rest.head?

/-- The stretch that a fault at the current place is reported with. -/
def currentSpan : Reader (Option Span) := return (← get).span

/-- Fails at a stretch. -/
def failAt {α : Type} (span : Option Span) (message : String) : Reader α :=
  throw (.shapeAt span message)

/-- Takes the next event; `expected` names what should come. -/
def take (expected : String) : Reader Spanned := do
  let c ← get
  match c.rest with
  | next :: rest =>
    set { c with rest }
    return next
  | [] => failAt c.span ("Expected " ++ expected ++ ", but reached the end of the document")

/-- Takes an event that has to be a given one. -/
def expect (event : Event) : Reader Span := do
  let next ← take event.describe
  if next.event = event then return next.span
  else failAt (some next.span) ("Expected " ++ event.describe ++ ", found " ++ next.event.describe)

/-- Whether a given event comes next. -/
def comes (event : Event) : Reader Bool :=
  return match (← get).rest with
    | next :: _ => next.event = event
    | [] => false

/-- Whether a scalar comes next. -/
def scalarComes : Reader Bool :=
  return match (← get).rest with
    | ⟨.scalar .., _⟩ :: _ => true
    | _ => false

/-- Takes an event if it is a given one: whether it was. -/
def allow (event : Event) : Reader Bool := do
  if ← comes event then
    modify fun c => { c with rest := c.rest.drop 1 }
    return true
  else return false

/-! ### Scalars -/

/-- Takes a scalar. -/
def scalar : Reader Scalar := do
  let next ← take "scalar"
  match next.event with
  | .scalar text plain => return ⟨text, plain, next.span⟩
  | other => failAt (some next.span) ("Expected scalar, found " ++ other.describe)

/-- Takes a truth value: yes, no and the other words of YAML 1.1, in any case. -/
def boolean : Reader Bool := do
  let s ← scalar
  let word := Text.fold s.text
  if ["true", "y", "yes", "on"].contains word then return true
  else if ["false", "n", "no", "off"].contains word then return false
  else failAt (some s.span) ("Expected a boolean value. Actual: '" ++ s.text ++ "'")

/-- Takes a scalar that has to be a given text. -/
def exact (expected : String) : Reader Unit := do
  let s ← scalar
  unless s.text = expected do
    failAt (some s.span) ("Expected value '" ++ expected ++ "'. Actual '" ++ s.text ++ "'.")

/-- Takes a whole number of 32 bits. -/
def int32 : Reader Int := do
  let s ← scalar
  match int32? s.text with
  | some n => return n
  | none => failAt (some s.span) ("Expected an integer value. Actual: '" ++ s.text ++ "'")

/-- Takes a text that is neither empty nor null. -/
def nonEmpty : Reader String := do
  let s ← scalar
  if s.text.isEmpty || s.isNull then failAt (some s.span) "Expected non-empty string value."
  return s.text

/-! ### Collections -/

/-- Repeats a step up to the end of a collection, at most `n` times. -/
def upTo {σ : Type} (closing : Event) (step : σ → Reader σ) : Nat → σ → Reader σ
  | 0, _ => do failAt (← currentSpan) "Expected scalar, but reached the end of the document"
  | n + 1, acc => do
    if ← allow closing then return acc
    else upTo closing step n (← step acc)

/-- Repeats a step, which takes at least one event, up to the end of a collection. -/
def untilEnd {σ : Type} (closing : Event) (acc : σ) (step : σ → Reader σ) : Reader σ := do
  upTo closing step ((← get).rest.length + 1) acc

/-- Takes the items of a sequence whose start has been taken. -/
def restOfSequence {α : Type} (item : Reader α) : Reader (List α) := do
  let items ← untilEnd .sequenceEnd [] fun items => return (← item) :: items
  return items.reverse

/-- Takes a sequence. -/
def sequenceOf {α : Type} (item : Reader α) : Reader (List α) := do
  let _ ← expect .sequenceStart
  restOfSequence item

/-- Takes a mapping, building a value from its entries. -/
def mappingOf {σ : Type} (acc : σ) (entry : σ → Reader σ) : Reader σ := do
  let _ ← expect .mappingStart
  untilEnd .mappingEnd acc entry

/-- Takes one text or a sequence of them, none of them empty. -/
def texts : Reader (List String) := do
  if ← scalarComes then return [← nonEmpty]
  else sequenceOf nonEmpty

/-- Refuses a name that a mapping has already. -/
def refuseDuplicate (key : Scalar) (present : Bool) : Reader Unit := do
  if present then failAt (some key.span) ("Duplicate key '" ++ key.text ++ "'")

/-- Takes a mapping of texts. -/
def textMap (order : NameOrder) : Reader (Dictionary String) :=
  mappingOf [] fun (d : Dictionary String) => do
    let key ← scalar
    let value ← scalar
    refuseDuplicate key (d.names.any (order.same · key.text))
    return d.put key.text value.text

/-- The fault of collections nested too deeply. -/
def depthExceeded (span : Span) : Diagnostic :=
  (Diagnostic.limit ("Max object depth of " ++ toString maxDepth ++ " exceeded.")).withSpan (some span)

/-- The kinds of collection in a graph. -/
inductive Collection where
  | list
  | mapping

/-- Takes a collection in which `levels` levels of collections may be nested, itself included. -/
def collection : Nat → Collection → Reader Graph
  | 0, .list => do
    let span ← expect .sequenceStart
    throw (depthExceeded span)
  | 0, .mapping => do
    let span ← expect .mappingStart
    throw (depthExceeded span)
  | levels + 1, .list => do
    let _ ← expect .sequenceStart
    return .list (← restOfSequence do
      if ← scalarComes then return .text (← scalar).text
      else if ← comes .sequenceStart then collection levels .list
      else collection levels .mapping)
  | levels + 1, .mapping => do
    let _ ← expect .mappingStart
    let entries ← untilEnd .mappingEnd [] fun (d : Dictionary Graph) => do
      let key ← scalar
      refuseDuplicate key (d.has key.text)
      let value ←
        if ← scalarComes then pure (Graph.text (← scalar).text)
        else if ← comes .sequenceStart then collection levels .list
        else collection levels .mapping
      return d.put key.text value
    return .mapping entries

/-- The number of levels that may be nested in a collection at a depth, itself included. -/
def levelsAt (depth : Nat) : Nat := maxDepth + 1 - depth

/-- Takes a mapping that is itself at a depth. -/
def mapping (depth : Nat) : Reader (Dictionary Graph) := do
  match ← collection (levelsAt depth) .mapping with
  | .mapping entries => return entries
  | _ => return []

/-- Takes a sequence that is itself at a depth. -/
def sequence (depth : Nat) : Reader (List Graph) := do
  match ← collection (levelsAt depth) .list with
  | .list items => return items
  | _ => return []

/-- Refuses a property when one that excludes it has been given. -/
def refuseAfter (given : Bool) (previous current : String) (span : Span) : Reader Unit := do
  if given then
    failAt (some span) ("'" ++ current ++ "' is not allowed. '" ++ previous ++
      "' was already specified at the same level and is mutually exclusive.")

end Reader
end PipelineExpansion.Yaml
