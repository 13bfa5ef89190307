import PipelineExpansion.Expression.Ast
import PipelineExpansion.Expression.Lexeme

/-!
# Writing expressions

An expression is written with the fewest parentheses that its operators call for: around an
operand whose own operator binds too loosely, and around what a step stands behind when that is a
negation or has an operator. Tokens are written with single blanks between them. Numbers are left
out of the printable expressions, and so are steps behind a reference, which are parts of it.
-/

namespace PipelineExpansion

open Expression

/-- How loosely the outermost operator of an expression binds; zero where there is none. -/
def Expr.level : Expr → Nat
  | .binary op _ _ => op.level
  | _ => 0

/-- Whether a step can stand behind an expression without parentheses. -/
def Expr.isPostfix : Expr → Bool
  | .not _ | .binary .. => false
  | _ => true

/-- Whether an expression is a reference. -/
def Expr.isReference : Expr → Bool
  | .reference .. => true
  | _ => false

namespace Expression

/-- Tokens in parentheses, where these are needed. -/
def enclosed (needed : Bool) (ts : List Token) : List Token :=
  if needed then .symbol .openParen :: (ts ++ [.symbol .closeParen]) else ts

/-- Characters with the quotes among them doubled. -/
def doubled (cs : List Char) : List Char :=
  cs.flatMap fun c => if c = '\'' then ['\'', '\''] else [c]

/-- The spelling of a token in an expression. -/
def Token.spelling : Token → String
  | text s => String.ofList ('\'' :: (doubled s.toList ++ ['\'']))
  | t => t.describe

end Expression

mutual

/-- The tokens of an expression. -/
def Expr.tokens : Expr → List Token
  | .null => [.keyword .null]
  | .boolean true => [.keyword .true]
  | .boolean false => [.keyword .false]
  | .number n => [.number n]
  | .text s => [.text s]
  | .reference root parts => .name root :: Expr.partTokens parts
  | .call function arguments =>
    .name function :: .symbol .openParen :: (Expr.listTokens arguments ++ [.symbol .closeParen])
  | .index object i =>
    enclosed (!object.isPostfix) object.tokens
      ++ .symbol .openBracket :: (i.tokens ++ [.symbol .closeBracket])
  | .member object property => enclosed (!object.isPostfix) object.tokens
    ++ [.symbol .dot, .ofName property]
  | .not e => .symbol .not :: enclosed (0 < e.level) e.tokens
  | .binary op left right =>
    enclosed (op.level < left.level) left.tokens
      ++ .symbol op.symbol :: enclosed (op.level ≤ right.level) right.tokens
  | .array items => .symbol .openBracket :: (Expr.listTokens items ++ [.symbol .closeBracket])

/-- The tokens of the steps of a reference. -/
def Expr.partTokens : List ReferencePart → List Token
  | [] => []
  | .property name :: rest => .symbol .dot :: .ofName name :: Expr.partTokens rest
  | .index e :: rest =>
    .symbol .openBracket :: (e.tokens ++ .symbol .closeBracket :: Expr.partTokens rest)

/-- The tokens of expressions with commas between them. -/
def Expr.listTokens : List Expr → List Token
  | [] => []
  | first :: rest => first.tokens ++ Expr.tailTokens rest

/-- The tokens of expressions with a comma in front of each. -/
def Expr.tailTokens : List Expr → List Token
  | [] => []
  | e :: rest => .symbol .comma :: (e.tokens ++ Expr.tailTokens rest)

end

/-- The text of an expression. -/
def Expr.print (e : Expr) : String := Text.join " " (e.tokens.map Token.spelling)

namespace Expression

/-- The names that some text yields. -/
def IsIdentifier (name : String) : Prop :=
  ∃ source ts, tokenize source = .ok ts ∧ Token.name name ∈ ts

/-- The names of properties: behind a point, keywords are names as well. -/
def IsProperty (name : String) : Prop :=
  IsIdentifier name ∨ ∃ k : Keyword, name = k.spelling

end Expression

mutual

/-- Whether an expression can be written: it has no numbers, its names are names, and no step
stands behind a reference. -/
def Expr.Printable : Expr → Prop
  | .null | .boolean _ | .text _ => True
  | .number _ => False
  | .reference root parts => IsIdentifier root ∧ Expr.PrintableParts parts
  | .call function arguments => IsIdentifier function ∧ Expr.PrintableAll arguments
  | .index object i => object.isReference = false ∧ object.Printable ∧ i.Printable
  | .member object property => object.isReference = false ∧ object.Printable ∧ IsProperty property
  | .not e => e.Printable
  | .binary _ left right => left.Printable ∧ right.Printable
  | .array items => Expr.PrintableAll items

/-- Whether all steps of a reference can be written. -/
def Expr.PrintableParts : List ReferencePart → Prop
  | [] => True
  | .property name :: rest => IsProperty name ∧ Expr.PrintableParts rest
  | .index e :: rest => e.Printable ∧ Expr.PrintableParts rest

/-- Whether all expressions of a list can be written. -/
def Expr.PrintableAll : List Expr → Prop
  | [] => True
  | e :: rest => e.Printable ∧ Expr.PrintableAll rest

end

end PipelineExpansion
