import PipelineExpansion.Expression.Fault
import PipelineExpansion.Template.Token
import PipelineExpansion.Text.Lower

/-!
# Comparing values

Equality is loose: texts are equal whatever their case, and the right value is converted to the kind of the
left one, so it is not symmetric. Numbers are ordered as numbers, all other scalars as texts without
regard to case.
-/

namespace PipelineExpansion.Expression

open Template (Key)

mutual

/-- Whether two values count as equal. -/
def looselyEqual : Template.Token → Template.Token → Bool
  | .null _, right =>
    match right with
    | .null _ => true
    | .text _ s => s.isEmpty
    | _ => false
  | .boolean _ b, right => b == right.truthy
  | .number _ n, right =>
    match right.number? with
    | some m => n.same m
    | none => false
  | .text o s, right =>
    match right with
    | .null _ => s.isEmpty
    | .text _ t => Text.lower s = Text.lower t
    | .boolean _ b => (Template.Token.text o s).truthy == b
    | .number _ m =>
      match (Template.Token.text o s).number? with
      | some n => n.same m
      | none => false
    | _ => false
  | .sequence _ items, right =>
    match right with
    | .sequence _ others => items.length = others.length && itemsEqual items others
    | _ => false
  | .mapping _ entries, right =>
    match right with
    | .mapping _ others => entries.length = others.length && entriesEqual entries right
    | _ => false

/-- Whether the items of two lists count as equal, one by one. -/
def itemsEqual : List Template.Token → List Template.Token → Bool
  | a :: as, b :: bs => looselyEqual a b && itemsEqual as bs
  | _, _ => true

/-- Whether a mapping has an equal value for every entry. -/
def entriesEqual : List (Key × Template.Token) → Template.Token → Bool
  | [], _ => true
  | (k, v) :: rest, other =>
    (match other.lookup? k.name with
      | some w => looselyEqual v w
      | none => false) && entriesEqual rest other

end

/-- The order of two values. -/
def order (left right : Template.Token) : Except ValueFault Ordering :=
  match left with
  | .number _ n =>
    match right.number? with
    | none => .error (.incomparableNumber right.kindName)
    | some m =>
      match n.order m with
      | some o => .ok o
      | none => .error .incomparableNaN
  | left =>
    match left.display?, right.display? with
    | some a, some b => .ok (compare (Text.lower a) (Text.lower b))
    | _, _ => .error (.incomparable left.kindName right.kindName)

end PipelineExpansion.Expression
