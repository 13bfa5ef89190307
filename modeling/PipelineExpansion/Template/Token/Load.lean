import PipelineExpansion.Template.Token
import PipelineExpansion.Yaml.Event

/-!
# Tokens of a document

`Token.ofText?` reads a document as tokens. A plain scalar stands for null, a truth value or a number where
the core schema of YAML says so; every other scalar is a text. Keys are always texts, and no mapping has a
key twice.
-/

namespace PipelineExpansion.Template

/-! ### Scalars -/

/-- The value of a digit in a base up to sixteen. -/
def digitValue? (base : Nat) (c : Char) : Option Nat :=
  let n :=
    if c.isDigit then c.toNat - '0'.toNat
    else if 'a' ≤ c && c ≤ 'f' then c.toNat - 'a'.toNat + 10
    else if 'A' ≤ c && c ≤ 'F' then c.toNat - 'A'.toNat + 10
    else base
  if n < base then some n else none

/-- A whole number in a base, with an optional sign, within 64 bits. -/
def wholeInBase? (base : Nat) (cs : List Char) : Option Int := do
  let (negative, digits) := Binary64.signed cs
  if digits.isEmpty then none
  let magnitude ← digits.foldlM (fun n c => (digitValue? base c).map (n * base + ·)) 0
  let value : Int := if negative then -(magnitude : Int) else magnitude
  if Token.wholeBounds.1 ≤ value && value ≤ Token.wholeBounds.2 then some value else none

/-- A decimal number that begins with a digit or a point after its sign and is made of digits, points,
signs and exponent letters. -/
def decimalNumber? (s : String) : Option Binary64 :=
  let digits := (Binary64.signed s.toList).2
  let begins :=
    match digits with
    | c :: _ => c.isDigit || c = '.'
    | [] => false
  if begins && digits.all (fun c => c.isDigit || ['.', 'e', 'E', '-', '+'].contains c)
      && digits ≠ ['.'] then
    Binary64.ofString? s
  else none

/-- The number a plain scalar stands for. -/
def plainNumber? (s : String) : Option Binary64 :=
  match s.toList with
  | '0' :: 'x' :: digits => (wholeInBase? 16 digits).map .ofInt
  | '0' :: 'o' :: digits => (wholeInBase? 8 digits).map .ofInt
  | _ =>
    if [".inf", ".Inf", ".INF", "+.inf"].contains s then some (.infinite false)
    else if ["-.inf", "-.Inf", "-.INF"].contains s then some (.infinite true)
    else if [".nan", ".NaN", ".NAN"].contains s then some .nan
    else decimalNumber? s

/-- The token of a scalar. -/
def Token.ofScalar (o : Origin) (s : String) (plain : Bool) : Token :=
  if !plain then .text o s
  else if ["", "~", "null", "Null", "NULL"].contains s then .null o
  else if ["true", "True", "TRUE"].contains s then .boolean o true
  else if ["false", "False", "FALSE"].contains s then .boolean o false
  else
    match plainNumber? s with
    | some n => .number o n
    | none => .text o s

/-! ### Collections -/

open Yaml (Spanned Event)

/-- The fault of events that end before their collection does. -/
def endReached (span : Yaml.Span) : Diagnostic :=
  .shapeAt (some span) "Unexpected end of document"

mutual

/-- Reads the token that an event begins, and the events behind it. -/
def build (file : Option Nat) :
    Nat → Spanned → List Spanned → Except Diagnostic (Token × List Spanned)
  | 0, first, _ => .error (endReached first.span)
  | n + 1, first, rest =>
    let o : Origin := ⟨some first.span, file⟩
    match first.event with
    | .scalar s plain => .ok (.ofScalar o s plain, rest)
    | .sequenceStart => do
      let (items, rest) ← buildItems file n first.span [] rest
      return (.sequence o items, rest)
    | .mappingStart => do
      let (entries, rest) ← buildEntries file n first.span [] rest
      return (.mapping o entries, rest)
    | event => .error (.shapeAt (some first.span) ("Unexpected " ++ event.describe))

/-- Reads the items of a sequence up to its end. -/
def buildItems (file : Option Nat) : Nat → Yaml.Span → List Token → List Spanned →
    Except Diagnostic (List Token × List Spanned)
  | 0, span, _, _ => .error (endReached span)
  | _ + 1, span, _, [] => .error (endReached span)
  | n + 1, span, items, next :: rest =>
    if next.event = .sequenceEnd then .ok (items.reverse, rest)
    else do
      let (item, rest) ← build file n next rest
      buildItems file n span (item :: items) rest

/-- Reads the entries of a mapping up to its end. -/
def buildEntries (file : Option Nat) : Nat → Yaml.Span → List Entry → List Spanned →
    Except Diagnostic (List Entry × List Spanned)
  | 0, span, _, _ => .error (endReached span)
  | _ + 1, span, _, [] => .error (endReached span)
  | n + 1, span, entries, next :: rest =>
    match next.event with
    | .mappingEnd => .ok (entries.reverse, rest)
    | .scalar name _ =>
      if entries.any fun (k, _) => k.name = name then
        .error (.shapeAt (some next.span) ("'" ++ name ++ "' is already defined"))
      else
        match rest with
        | [] => .error (endReached next.span)
        | first :: rest => do
          let (value, rest) ← build file n first rest
          buildEntries file n span ((⟨⟨some next.span, file⟩, name⟩, value) :: entries) rest
    | event =>
      .error (.shapeAt (some next.span)
        ("Expected a scalar mapping key, found " ++ event.describe))

end

/-- The token of the events of a document; one without events is null. -/
def Token.ofEvents? (file : Option Nat) : List Spanned → Except Diagnostic Token
  | [] => .ok .ofNull
  | first :: rest => do
    let (token, _) ← build file (rest.length + 1) first rest
    return token

/-- The token of the first document of a text, with every token marked as coming from a file. -/
def Token.ofText? (file : Option Nat) (source : String) : Except Diagnostic Token := do
  Token.ofEvents? file (← Yaml.events source)

end PipelineExpansion.Template
