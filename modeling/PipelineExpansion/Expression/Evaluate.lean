import PipelineExpansion.Expression.Function
import PipelineExpansion.Expression.Parse

/-!
# Evaluating expressions

An expression is evaluated against a mapping of named values. Names and properties are found without
regard to ASCII case; a property or an item that is not there is null, but a name that is not there is a
fault.
-/

namespace PipelineExpansion.Expression

/-- A property of a value. -/
def memberOf (object : Value) (name : String) : Value := (object.lookup? name).getD .ofNull

/-- The number of an item: numbers below zero have none, fractions are dropped. -/
def itemNumber? (n : Binary64) : Option Nat :=
  match n.order (.zero false) with
  | some .gt | some .eq => some (n.saturate 0 (Nat.pow 2 64 - 1)).toNat
  | _ => none

/-- An item of a value: of a sequence by number, of a mapping by name. -/
def itemOf (object index : Value) : Value :=
  match object, index with
  | .sequence _ items, .number _ n => ((itemNumber? n).bind (items[·]?)).getD .ofNull
  | .mapping .., index =>
    match index.display? with
    | some name => memberOf object name
    | none => .ofNull
  | _, _ => .ofNull

/-- Whether an operator is decided by its left operand alone. -/
def Operator.decides : Operator → Value → Option Bool
  | and, left => if left.truthy then none else some false
  | or, left => if left.truthy then some true else none
  | _, _ => none

/-- What an operator yields for its operands. -/
def Operator.apply (op : Operator) (left right : Value) : Except ValueFault Bool :=
  match op with
  | and | or => .ok right.truthy
  | eq => .ok (looselyEqual left right)
  | ne => .ok (!looselyEqual left right)
  | lt => (order left right).map (· == .lt)
  | le => (order left right).map (· != .gt)
  | gt => (order left right).map (· == .gt)
  | ge => (order left right).map (· != .lt)

mutual

/-- Evaluates an expression. -/
def eval (names : Value) : Expr → Evaluation
  | .null => .ok .ofNull
  | .boolean b => .ok (.ofBool b)
  | .number n => .ok (.ofNumber n)
  | .text s => .ok (.ofText s)
  | .reference root parts =>
    match names.lookup? root with
    | some value => evalParts names value parts
    | none => .error (.unknownValue root)
  | .call name args => do Function.call name (← evalAll names args)
  | .index object index => do
    let object ← eval names object
    let index ← eval names index
    return itemOf object index
  | .member object name => do return memberOf (← eval names object) name
  | .not e => do return .ofBool (!(← eval names e).truthy)
  | .binary op left right => do
    let left ← eval names left
    match op.decides left with
    | some b => return .ofBool b
    | none => return .ofBool (← op.apply left (← eval names right))
  | .array items => do return .ofItems (← evalAll names items)

/-- Evaluates expressions from left to right. -/
def evalAll (names : Value) : List Expr → Except ValueFault (List Value)
  | [] => .ok []
  | e :: rest => do
    let v ← eval names e
    let vs ← evalAll names rest
    return v :: vs

/-- Follows the steps of a reference from a value. -/
def evalParts (names : Value) (value : Value) : List ReferencePart → Evaluation
  | [] => .ok value
  | .property name :: rest => evalParts names (memberOf value name) rest
  | .index e :: rest => do
    let index ← eval names e
    evalParts names (itemOf value index) rest

end

/-- Reads and evaluates an expression. -/
def evaluate (source : String) (names : Value) : Except Fault Value := do
  let e ← parse source
  (eval names e).mapError .value

end PipelineExpansion.Expression
