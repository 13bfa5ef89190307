import PipelineExpansion.Expression.Compare
import PipelineExpansion.Text.Pieces
import PipelineExpansion.Text.Upper

/-!
# Functions of expressions

The functions that an expression can call, by names in which case does not matter: comparisons, logic,
texts and collections. Their arguments have been evaluated.
-/

namespace PipelineExpansion.Expression

/-- A value of an expression. -/
abbrev Value := Template.Token

/-- The result of an evaluation. -/
abbrev Evaluation := Except ValueFault Value

namespace Function

/-- The functions. -/
inductive Name where
  | eq
  | ne
  | lt
  | le
  | gt
  | ge
  | isIn
  | notIn
  | and
  | or
  | not
  | xor
  | contains
  | containsValue
  | startsWith
  | endsWith
  | format
  | join
  | replace
  | split
  | lower
  | upper
  | trim
  | convertToJson
  | coalesce
  | iif
  | length
deriving DecidableEq, Repr

/-- The function of a name. -/
def Name.ofString? (s : String) : Option Name :=
  match Text.fold s with
  | "eq" => some eq
  | "ne" => some ne
  | "lt" => some lt
  | "le" => some le
  | "gt" => some gt
  | "ge" => some ge
  | "in" => some isIn
  | "notin" => some notIn
  | "and" => some and
  | "or" => some or
  | "not" => some not
  | "xor" => some xor
  | "contains" => some contains
  | "containsvalue" => some containsValue
  | "startswith" => some startsWith
  | "endswith" => some endsWith
  | "format" => some format
  | "join" => some join
  | "replace" => some replace
  | "split" => some split
  | "lower" => some lower
  | "upper" => some upper
  | "trim" => some trim
  | "converttojson" => some convertToJson
  | "coalesce" => some coalesce
  | "iif" => some iif
  | "length" => some length
  | _ => none

/-- A truth value as the result of an evaluation. -/
def truth (b : Bool) : Value := .ofBool b

/-- The text of an argument. -/
def textOf (function : String) (v : Value) : Except ValueFault String :=
  match v.display? with
  | some s => .ok s
  | none => .error (.noText function v.kindName)

/-- The text of an argument in small letters. -/
def smallTextOf (function : String) (v : Value) : Except ValueFault String :=
  (textOf function v).map Text.lower

/-- Exactly one argument. -/
def one (function : String) : List Value → Except ValueFault Value
  | [a] => .ok a
  | args => .error (.arity function 1 args.length)

/-- Exactly two arguments. -/
def two (function : String) : List Value → Except ValueFault (Value × Value)
  | [a, b] => .ok (a, b)
  | args => .error (.arity function 2 args.length)

/-- Exactly three arguments. -/
def three (function : String) : List Value → Except ValueFault (Value × Value × Value)
  | [a, b, c] => .ok (a, b, c)
  | args => .error (.arity function 3 args.length)

/-- At least one argument: the first and the others. -/
def oneOrMore (function : String) : List Value → Except ValueFault (Value × List Value)
  | a :: rest => .ok (a, rest)
  | [] => .error (.leastArity function 1 0)

/-- At least two arguments. -/
def twoOrMore (function : String) (args : List Value) : Except ValueFault (List Value) :=
  if args.length < 2 then .error (.leastArity function 2 args.length) else .ok args

/-- A comparison by order. -/
def ordered (function : String) (args : List Value) (holds : Ordering → Bool) : Evaluation := do
  let (a, b) ← two function args
  return truth (holds (← order a b))

/-- A function on one text. -/
def onText (function : String) (args : List Value) (f : String → String) : Evaluation := do
  let a ← one function args
  return .ofText (f (← textOf function a))

/-- A test of two texts without regard to case. The faults name the function by its own spelling. -/
def onTexts (function own : String) (args : List Value) (holds : String → String → Bool) :
    Evaluation := do
  let (a, b) ← two function args
  let s ← smallTextOf own a
  let t ← smallTextOf own b
  return truth (holds s t)

/-! ### Formats -/

/-- A piece of a format: a character, or a placeholder with the text between its braces. -/
inductive Piece where
  | char (c : Char)
  | placeholder (body : List Char)
deriving DecidableEq, Repr

/-- Cuts a format into pieces. A brace written twice stands for itself, and a placeholder without an end
goes to the end of the format. The budget is the number of characters. -/
def formatPieces : Nat → List Char → List Piece
  | 0, _ => []
  | _ + 1, [] => []
  | n + 1, c :: rest =>
    if c = '\x7b' then
      match rest with
      | '\x7b' :: rest => .char '\x7b' :: formatPieces n rest
      | rest =>
        .placeholder (rest.takeWhile (· ≠ '\x7d'))
          :: formatPieces n ((rest.dropWhile (· ≠ '\x7d')).drop 1)
    else if c = '\x7d' then
      match rest with
      | '\x7d' :: rest => .char '\x7d' :: formatPieces n rest
      | rest => .char '\x7d' :: formatPieces n rest
    else .char c :: formatPieces n rest

/-- The number of a placeholder, of at most 64 bits. -/
def placeholderIndex? (body : List Char) : Option Nat :=
  let digits :=
    match Text.dropTrailingBlanks (Text.dropBlanks body) with
    | '+' :: digits => digits
    | digits => digits
  if digits.isEmpty || !digits.all Char.isDigit then none
  else
    let n := Binary64.digitsValue digits
    if n < Nat.pow 2 64 then some n else none

/-- The text of a piece. Placeholders number the values behind the first, which is the format, in 64 bits: the
last number of all comes round to the format. -/
def pieceText (values : List Value) : Piece → Except ValueFault String
  | .char c => .ok c.toString
  | .placeholder body =>
    match (placeholderIndex? body).bind fun n => values[(n + 1) % Nat.pow 2 64]? with
    | some a => textOf "format" a
    | none => .error (.placeholder (String.ofList body))

/-- The first of the values, which is a format, with its placeholders replaced by the others. -/
def formatted (template : Value) (args : List Value) : Except ValueFault String := do
  let pattern ← textOf "format" template
  let parts ← (formatPieces pattern.length pattern.toList).mapM (pieceText (template :: args))
  return String.join parts

/-! ### Texts -/

/-- The parts of a text between the occurrences of a delimiter. The empty delimiter occurs before, after and
between all characters. -/
def splitText (delimiter s : String) : List String :=
  if delimiter.isEmpty then "" :: s.toList.map Char.toString ++ [""]
  else splitFrom delimiter.toList (s.length + 1) s.toList
where
  /-- The parts of characters between the occurrences of a delimiter; every occurrence takes characters. -/
  splitFrom (delimiter : List Char) : Nat → List Char → List String
    | 0, cs => [String.ofList cs]
    | n + 1, cs =>
      match Text.cut? delimiter cs with
      | none => [String.ofList cs]
      | some (before, rest) => String.ofList before :: splitFrom delimiter n rest

/-- A text with every occurrence of a part replaced. -/
def replaceText (part replacement s : String) : String :=
  replacement.intercalate (splitText part s)

/-- The texts that `join` puts together. -/
def joinTexts (v : Value) : Except ValueFault (List String) :=
  match v with
  | .sequence _ items => items.mapM (textOf "join")
  | v => do return [← textOf "join" v]

/-- The length of a text in characters, or of a collection. -/
def lengthOf : Value → Except ValueFault Nat
  | .text _ s => .ok s.length
  | .sequence _ items => .ok items.length
  | .mapping _ entries => .ok entries.length
  | _ => .error .noLength

/-- Whether a collection holds a value. -/
def holdsValue (collection value : Value) : Bool :=
  match collection with
  | .sequence _ items => items.any (looselyEqual · value)
  | .mapping _ entries => entries.any fun (_, v) => looselyEqual v value
  | _ => false

/-- Calls a function; `name` is how the expression spells it. -/
def apply (f : Name) (name : String) (args : List Value) : Evaluation :=
  match f with
  | .eq => do
    let (a, b) ← two name args
    return truth (looselyEqual a b)
  | .ne => do
    let (a, b) ← two name args
    return truth (!looselyEqual a b)
  | .lt => ordered name args (· == .lt)
  | .le => ordered name args (· != .gt)
  | .gt => ordered name args (· == .gt)
  | .ge => ordered name args (· != .lt)
  | .isIn => do
    let (a, rest) ← oneOrMore name args
    return truth (rest.any (looselyEqual a))
  | .notIn => do
    let (a, rest) ← oneOrMore name args
    return truth (!rest.any (looselyEqual a))
  | .and => do return truth ((← twoOrMore name args).all Template.Token.truthy)
  | .or => do return truth ((← twoOrMore name args).any Template.Token.truthy)
  | .not => do return truth (!(← one name args).truthy)
  | .xor => do
    let (a, b) ← two name args
    return truth (a.truthy != b.truthy)
  | .contains => onTexts name "contains" args Text.contains
  | .containsValue => do
    let (a, b) ← two name args
    return truth (holdsValue a b)
  | .startsWith => onTexts name "startsWith" args fun s t => (Text.stripPrefix? t s).isSome
  | .endsWith => onTexts name "endsWith" args fun s t => (Text.stripSuffix? t s).isSome
  | .format => do
    let (template, rest) ← oneOrMore "format" args
    return .ofText (← formatted template rest)
  | .join => do
    let (separator, items) ← two "join" args
    let separator ← textOf "join" separator
    return .ofText (separator.intercalate (← joinTexts items))
  | .replace => do
    let (a, b, c) ← three name args
    let s ← textOf name a
    let part ← textOf name b
    let replacement ← textOf name c
    return .ofText (replaceText part replacement s)
  | .split => do
    let (a, b) ← two name args
    let s ← textOf name a
    let delimiter ← textOf name b
    return .ofItems ((splitText delimiter s).map .ofText)
  | .lower => onText name args Text.lower
  | .upper => onText name args Text.upper
  | .trim => onText name args Text.trim
  | .convertToJson => do return .ofText (← one name args).toJson.pretty
  | .coalesce => .ok ((args.find? fun a => !a.isNull && a.text? ≠ some "").getD .ofNull)
  | .iif => do
    let (condition, yes, no) ← three name args
    return if condition.truthy then yes else no
  | .length => do return .ofInt (← lengthOf (← one name args))

/-- Calls the function of a name. -/
def call (name : String) (args : List Value) : Evaluation :=
  match Name.ofString? name with
  | some f => apply f name args
  | none => .error (.unknownFunction name)

end Function
end PipelineExpansion.Expression
