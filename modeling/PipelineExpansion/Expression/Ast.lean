import PipelineExpansion.Expression.Token

/-!
# Expressions

The tree of an expression. A reference is a name with the properties and indices that follow it; on any
other expression these are steps of their own.
-/

namespace PipelineExpansion

/-- The operators between two expressions. -/
inductive Expression.Operator where
  | eq
  | ne
  | lt
  | le
  | gt
  | ge
  | and
  | or
deriving DecidableEq, Repr

mutual

/-- An expression. -/
inductive Expr where
  | null
  | boolean (b : Bool)
  | number (n : Binary64)
  | text (s : String)
  | reference (root : String) (parts : List ReferencePart)
  | call (function : String) (arguments : List Expr)
  | index (object index : Expr)
  | member (object : Expr) (property : String)
  | not (e : Expr)
  | binary (op : Expression.Operator) (left right : Expr)
  | array (items : List Expr)

/-- A step of a reference. -/
inductive ReferencePart where
  | property (name : String)
  | index (e : Expr)

end

namespace Expression

/-- How tightly an operator binds: the higher, the looser. -/
def Operator.level : Operator → Nat
  | lt | le | gt | ge => 1
  | eq | ne => 2
  | and => 3
  | or => 4

/-- The symbol of an operator. -/
def Operator.symbol : Operator → Symbol
  | eq => .eq
  | ne => .ne
  | lt => .lt
  | le => .le
  | gt => .gt
  | ge => .ge
  | and => .and
  | or => .or

/-- The operator a symbol stands for. -/
def Symbol.operator? : Symbol → Option Operator
  | .eq => some .eq
  | .ne => some .ne
  | .lt => some .lt
  | .le => some .le
  | .gt => some .gt
  | .ge => some .ge
  | .and => some .and
  | .or => some .or
  | _ => none

/-- The level of operators that binds loosest. -/
def loosest : Nat := 4

end Expression
end PipelineExpansion
