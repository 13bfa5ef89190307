import PipelineExpansion.Diagnostic
import PipelineExpansion.Expression.Token

/-!
# What can be wrong with an expression

An expression fails to be cut into tokens, to be read, or to be evaluated. Faults of the first two kinds
have a position: an offset in bytes, and the number of a token.
-/

namespace PipelineExpansion.Expression

/-- Why a text cannot be cut into tokens. -/
inductive LexicalFault where
  | unexpected (text : String)
  | incomplete (symbol : Symbol)
  | unterminated
  | unclosed
deriving DecidableEq, Repr

/-- Why tokens cannot be read as an expression. -/
inductive GrammarFault where
  | missing
  | unexpected (token : Option Token)
  | expected (symbol : Symbol)
  | propertyExpected
deriving DecidableEq, Repr

/-- Why an expression has no value. -/
inductive ValueFault where
  | unknownValue (name : String)
  | unknownFunction (name : String)
  | incomparableNumber (kind : String)
  | incomparableNaN
  | incomparable (left right : String)
  | arity (function : String) (expected : Nat) (given : Nat)
  | leastArity (function : String) (expected : Nat) (given : Nat)
  | noText (function : String) (kind : String)
  | noLength
  | placeholder (text : String)
deriving DecidableEq, Repr

/-- Why an expression fails. -/
inductive Fault where
  | lexical (cause : LexicalFault) (position : Nat)
  | grammar (cause : GrammarFault) (position : Nat)
  | value (cause : ValueFault)
deriving DecidableEq, Repr

/-- The wording of a lexical fault. -/
def LexicalFault.message : LexicalFault → String
  | unexpected text => "Unexpected symbol: '" ++ text ++ "'"
  | incomplete symbol => "Expected '" ++ symbol.spelling ++ "'"
  | unterminated => "Unterminated string"
  | unclosed => "Expected '\x7d\x7d' to close the expression"

/-- The wording of a fault in the grammar. -/
def GrammarFault.message : GrammarFault → String
  | missing => "Expected an expression"
  | unexpected token => "Unexpected symbol: '" ++ (token.elim endDescription Token.describe) ++ "'"
  | expected symbol => "Expected '" ++ symbol.spelling ++ "'"
  | propertyExpected => "Expected a property name after '.'"

/-- The wording of a fault in evaluation. -/
def ValueFault.message : ValueFault → String
  | unknownValue name => "Unrecognized value: '" ++ name ++ "'"
  | unknownFunction name => "Unrecognized function: '" ++ name ++ "'"
  | incomparableNumber kind => "Cannot compare a number with a " ++ kind
  | incomparableNaN => "Cannot compare NaN"
  | incomparable left right => "Cannot compare a " ++ left ++ " with a " ++ right
  | arity function expected given =>
    function ++ "() requires " ++ toString expected ++ " argument(s), got " ++ toString given
  | leastArity function expected given =>
    function ++ "() requires at least " ++ toString expected ++ " argument(s), got " ++ toString given
  | noText function kind => function ++ "() cannot use a " ++ kind ++ " as text"
  | noLength => "length() requires a string, sequence or mapping"
  | placeholder text => "Invalid format placeholder '\x7b" ++ text ++ "\x7d'"

/-- The wording of a fault, without its position. -/
def Fault.message : Fault → String
  | lexical cause _ => cause.message
  | grammar cause _ => cause.message
  | value cause => cause.message

/-- The diagnostic of a fault: expressions that cannot be read are ill-shaped, others are meaningless. -/
def Fault.diagnostic : Fault → Diagnostic
  | lexical cause position =>
    .shapeAt none (cause.message ++ " (at position " ++ toString position ++ ")")
  | grammar cause position =>
    .shapeAt none (cause.message ++ " (at position " ++ toString position ++ ")")
  | value cause => .meaning cause.message

end PipelineExpansion.Expression
