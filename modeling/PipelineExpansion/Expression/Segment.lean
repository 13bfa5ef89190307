import PipelineExpansion.Expression.Lexeme
import PipelineExpansion.Text.Pieces

/-!
# Texts with expressions in them

A text may hold expressions between `${{` and `}}`. `segments` cuts it into literal parts and expressions;
`wholeExpression?` gives the expression of a text that is nothing else.
-/

namespace PipelineExpansion.Expression

/-- A part of a text. -/
inductive Segment where
  | text (s : String)
  | expression (source : String)
deriving DecidableEq, Repr

/-- What opens an expression. -/
def opening : List Char := ['$', '\x7b', '\x7b']

/-- What closes an expression. -/
def closing : List Char := ['\x7d', '\x7d']

/-- Cuts at the closing braces, passing over those inside quotes: what stands before them and what follows
them. -/
def closeAt? (quoted : Bool) : List Char → Option (List Char × List Char)
  | [] => none
  | c :: rest =>
    if c = '\'' then (closeAt? (!quoted) rest).map fun (body, after) => (c :: body, after)
    else if c = '\x7d' && !quoted && rest.head? = some '\x7d' then some ([], rest.drop 1)
    else (closeAt? quoted rest).map fun (body, after) => (c :: body, after)

/-- A literal part, unless it is empty. -/
def literal (cs : List Char) : List Segment :=
  if cs.isEmpty then [] else [.text (String.ofList cs)]

/-- Cuts characters into segments; `position` is the offset of the first in bytes. Every expression takes
characters. -/
def segmentsFrom : Nat → Nat → List Char → Except Fault (List Segment)
  | 0, _, cs => .ok (literal cs)
  | n + 1, position, cs =>
    match Text.cut? opening cs with
    | none => .ok (literal cs)
    | some (before, rest) =>
      match closeAt? false rest with
      | none => .error (.lexical .unclosed (position + Text.byteLength before))
      | some (body, after) => do
        let more ← segmentsFrom n (position + (Text.byteLength cs - Text.byteLength after)) after
        return literal before ++ .expression (Text.trim (String.ofList body)) :: more

/-- The segments of a text. -/
def segments (s : String) : Except Fault (List Segment) :=
  segmentsFrom (s.length + 1) 0 s.toList

/-- The expression of a text that consists of one expression and blanks around it. -/
def wholeExpression? (s : String) : Option String :=
  let body := Text.trim s
  if (Text.after? opening body.toList).isSome then
    match segments body with
    | .ok [.expression source] => some source
    | _ => none
  else none

/-- Whether a text holds an expression. -/
def hasExpression (s : String) : Bool := (Text.cut? opening s.toList).isSome

end PipelineExpansion.Expression
