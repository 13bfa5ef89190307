import PipelineExpansion.Number.Decimal

/-!
# Tokens of expressions

An expression is cut into keywords, numbers, texts in single quotes, names and symbols.
-/

namespace PipelineExpansion.Expression

/-- The words with a meaning of their own, in any case. -/
inductive Keyword where
  | null
  | true
  | false
deriving DecidableEq, Repr

/-- Operators and punctuation. -/
inductive Symbol where
  | eq
  | ne
  | lt
  | le
  | gt
  | ge
  | and
  | or
  | not
  | dot
  | comma
  | openParen
  | closeParen
  | openBracket
  | closeBracket
deriving DecidableEq, Repr

/-- A token of an expression. -/
inductive Token where
  | keyword (k : Keyword)
  | number (n : Binary64)
  | text (s : String)
  | name (s : String)
  | symbol (s : Symbol)
deriving DecidableEq, Repr

/-- The spelling of a keyword. -/
def Keyword.spelling : Keyword → String
  | null => "null"
  | true => "true"
  | false => "false"

/-- The spelling of a symbol. -/
def Symbol.spelling : Symbol → String
  | eq => "=="
  | ne => "!="
  | lt => "<"
  | le => "<="
  | gt => ">"
  | ge => ">="
  | and => "&&"
  | or => "||"
  | not => "!"
  | dot => "."
  | comma => ","
  | openParen => "("
  | closeParen => ")"
  | openBracket => "["
  | closeBracket => "]"

/-- How a token is named in diagnostics. A text is shown between quotes as it is. -/
def Token.describe : Token → String
  | keyword k => k.spelling
  | number n => n.positional
  | text s => "'" ++ s ++ "'"
  | name s => s
  | symbol s => s.spelling

/-- How the end of an expression is named in diagnostics. -/
def endDescription : String := "end of expression"

end PipelineExpansion.Expression
