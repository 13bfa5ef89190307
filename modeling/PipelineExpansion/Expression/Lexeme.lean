import PipelineExpansion.Expression.Fault
import PipelineExpansion.Text.Blank
import PipelineExpansion.Text.Letter
import PipelineExpansion.Text.Name
import PipelineExpansion.Text.Pieces

/-!
# Cutting expressions into tokens

`lexeme` reads the token at the start of a text, `tokenize` all tokens of one. Blanks separate tokens and
mean nothing else.
-/

namespace PipelineExpansion.Expression

/-- Whether a character begins a name. -/
def beginsName (c : Char) : Bool := Text.isLetter c || c = '_'

/-- Whether a character goes on with a name. -/
def continuesName (c : Char) : Bool := Text.isLetterOrNumber c || c = '_' || c = '-'

/-- The keyword that a name spells, in any case. -/
def Keyword.ofName? (name : String) : Option Keyword :=
  match Text.fold name with
  | "null" => some .null
  | "true" => some .true
  | "false" => some .false
  | _ => none

/-- The token of a name. -/
def Token.ofName (name : String) : Token :=
  match Keyword.ofName? name with
  | some k => .keyword k
  | none => .name name

/-- Reads a text after its opening quote: the text, in which two quotes stand for one, and what follows the
closing quote. -/
def quoted? : List Char → Option (List Char × List Char)
  | [] => none
  | ['\''] => some ([], [])
  | '\'' :: '\'' :: rest => (quoted? rest).map fun (s, after) => ('\'' :: s, after)
  | c :: rest =>
    if c = '\'' then some ([], rest) else (quoted? rest).map fun (s, after) => (c :: s, after)

/-- Whether a character goes on with the text of a number: digits, points and exponent letters, and signs
at the start or after an exponent letter. -/
def continuesNumber (before : Option Char) (c : Char) : Bool :=
  c.isDigit || c = '.' || c = 'e' || c = 'E'
    || ((c = '-' || c = '+') && (before = none || before = some 'e' || before = some 'E'))

/-- Reads the text of a number. -/
def numeral (before : Option Char) : List Char → List Char × List Char
  | [] => ([], [])
  | c :: rest =>
    if continuesNumber before c then
      let (digits, after) := numeral (some c) rest
      (c :: digits, after)
    else ([], c :: rest)

/-- Reads a symbol of two characters, or of the first alone where that is one. -/
def pair (second : Char) (both : Symbol) (alone : Option Symbol) (rest : List Char) :
    Except LexicalFault (Token × List Char) :=
  match rest, alone with
  | c :: after, one =>
    if c = second then .ok (.symbol both, after)
    else
      match one with
      | some s => .ok (.symbol s, c :: after)
      | none => .error (.incomplete both)
  | [], some s => .ok (.symbol s, [])
  | [], none => .error (.incomplete both)

/-- Reads a number. -/
def number (cs : List Char) : Except LexicalFault (Token × List Char) :=
  let (digits, rest) := numeral none cs
  let text := String.ofList digits
  match Binary64.ofString? text with
  | some n => .ok (.number n, rest)
  | none => .error (.unexpected text)

/-- Reads the token that a character begins; `rest` is what follows the character. -/
def lexeme (c : Char) (rest : List Char) : Except LexicalFault (Token × List Char) :=
  match c with
  | ',' => .ok (.symbol .comma, rest)
  | '(' => .ok (.symbol .openParen, rest)
  | ')' => .ok (.symbol .closeParen, rest)
  | '[' => .ok (.symbol .openBracket, rest)
  | ']' => .ok (.symbol .closeBracket, rest)
  | '=' => pair '=' .eq none rest
  | '!' => pair '=' .ne (some .not) rest
  | '<' => pair '=' .le (some .lt) rest
  | '>' => pair '=' .ge (some .gt) rest
  | '&' => pair '&' .and none rest
  | '|' => pair '|' .or none rest
  | '\'' =>
    match quoted? rest with
    | some (s, after) => .ok (.text (String.ofList s), after)
    | none => .error .unterminated
  | '.' =>
    if (rest.head?.map Char.isDigit).getD false then number ('.' :: rest)
    else .ok (.symbol .dot, rest)
  | c =>
    if c.isDigit || c = '-' || c = '+' then number (c :: rest)
    else if beginsName c then
      .ok (.ofName (String.ofList (c :: rest.takeWhile continuesName)), rest.dropWhile continuesName)
    else .error (.unexpected c.toString)

/-- Reads all tokens; `position` is the offset of the text. Every token takes a character. -/
def tokens : Nat → Nat → List Char → Except Fault (List Token)
  | 0, _, _ => .ok []
  | n + 1, position, cs =>
    let position := position + Text.byteLength (cs.takeWhile Text.isBlank)
    match cs.dropWhile Text.isBlank with
    | [] => .ok []
    | c :: rest =>
      match lexeme c rest with
      | .error cause => .error (.lexical cause position)
      | .ok (token, after) => do
        let more ← tokens n (position + (Text.byteLength (c :: rest) - Text.byteLength after)) after
        return token :: more

/-- The tokens of an expression. -/
def tokenize (source : String) : Except Fault (List Token) :=
  tokens (source.length + 1) 0 source.toList

end PipelineExpansion.Expression
