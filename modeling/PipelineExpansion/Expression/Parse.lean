import PipelineExpansion.Expression.Ast
import PipelineExpansion.Expression.Lexeme

/-!
# Reading expressions

The operators bind, from loosest to tightest: `||`, `&&`, equality, order, `!`, and the steps `.` and `[ ]`
behind an expression. Operators of one level associate to the left. The grammar is followed by recursion
on a budget of steps that no text exhausts.
-/

namespace PipelineExpansion.Expression

/-- A fault of the grammar, with the number of tokens that were left. -/
abbrev GrammarFaultAt := GrammarFault × Nat

/-- The operator of a level that comes next. -/
def nextOperator? (level : Nat) : List Token → Option (Operator × List Token)
  | .symbol s :: rest =>
    match s.operator? with
    | some op => if op.level = level then some (op, rest) else none
    | none => none
  | _ => none

/-- Takes a symbol. -/
def expectSymbol (s : Symbol) : List Token → Except GrammarFaultAt (List Token)
  | [] => .error (.expected s, 0)
  | t :: rest => if t = .symbol s then .ok rest else .error (.expected s, rest.length + 1)

/-- An expression with a property behind it. -/
def withProperty (e : Expr) (name : String) : Expr :=
  match e with
  | .reference root parts => .reference root (parts ++ [.property name])
  | e => .member e name

/-- An expression with an index behind it. -/
def withIndex (e index : Expr) : Expr :=
  match e with
  | .reference root parts => .reference root (parts ++ [.index index])
  | e => .index e index

/-- The name of a property: a name, or a keyword. -/
def propertyName? : Token → Option String
  | .name s => some s
  | .keyword k => some k.spelling
  | _ => none

mutual

/-- Reads operators up to a level; at level zero, a prefix. -/
def parseLevel : Nat → Nat → List Token → Except GrammarFaultAt (Expr × List Token)
  | 0, _, ts => .error (.missing, ts.length)
  | n + 1, 0, ts => parsePrefix n ts
  | n + 1, level + 1, ts => do
    let (left, ts) ← parseLevel n level ts
    parseChain n level left ts

/-- Goes on with operators of the level above `level`. -/
def parseChain :
    Nat → Nat → Expr → List Token → Except GrammarFaultAt (Expr × List Token)
  | 0, _, left, ts => .ok (left, ts)
  | n + 1, level, left, ts =>
    match nextOperator? (level + 1) ts with
    | none => .ok (left, ts)
    | some (op, ts) => do
      let (right, ts) ← parseLevel n level ts
      parseChain n level (.binary op left right) ts

/-- Reads negations and what they negate. -/
def parsePrefix : Nat → List Token → Except GrammarFaultAt (Expr × List Token)
  | 0, ts => .error (.missing, ts.length)
  | n + 1, ts =>
    match ts with
    | .symbol .not :: ts => do
      let (e, ts) ← parsePrefix n ts
      return (.not e, ts)
    | ts => do
      let (e, ts) ← parsePrimary n ts
      parseSteps n e ts

/-- Goes on with properties and indices. -/
def parseSteps : Nat → Expr → List Token → Except GrammarFaultAt (Expr × List Token)
  | 0, e, ts => .ok (e, ts)
  | n + 1, e, ts =>
    match ts with
    | .symbol .dot :: ts =>
      match ts with
      | [] => .error (.propertyExpected, 0)
      | t :: rest =>
        match propertyName? t with
        | some name => parseSteps n (withProperty e name) rest
        | none => .error (.propertyExpected, rest.length + 1)
    | .symbol .openBracket :: ts => do
      let (index, ts) ← parseLevel n loosest ts
      let ts ← expectSymbol .closeBracket ts
      parseSteps n (withIndex e index) ts
    | ts => .ok (e, ts)

/-- Reads an expression that no operator binds. -/
def parsePrimary : Nat → List Token → Except GrammarFaultAt (Expr × List Token)
  | 0, ts => .error (.missing, ts.length)
  | _ + 1, [] => .error (.unexpected none, 0)
  | n + 1, t :: ts =>
    match t with
    | .keyword .null => .ok (.null, ts)
    | .keyword .true => .ok (.boolean true, ts)
    | .keyword .false => .ok (.boolean false, ts)
    | .number v => .ok (.number v, ts)
    | .text s => .ok (.text s, ts)
    | .name name =>
      match ts with
      | .symbol .openParen :: ts => do
        let (arguments, ts) ← parseList n .closeParen ts
        return (.call name arguments, ts)
      | ts => .ok (.reference name [], ts)
    | .symbol .openParen => do
      let (e, ts) ← parseLevel n loosest ts
      let ts ← expectSymbol .closeParen ts
      return (e, ts)
    | .symbol .openBracket => do
      let (items, ts) ← parseList n .closeBracket ts
      return (.array items, ts)
    | .symbol s => .error (.unexpected (some (.symbol s)), ts.length + 1)

/-- Reads expressions between commas up to a closing symbol. -/
def parseList : Nat → Symbol → List Token → Except GrammarFaultAt (List Expr × List Token)
  | 0, _, ts => .error (.missing, ts.length)
  | n + 1, stop, ts =>
    if ts.head? = some (.symbol stop) then .ok ([], ts.drop 1)
    else do
      let (first, ts) ← parseLevel n loosest ts
      let (rest, ts) ← parseTail n ts
      let ts ← expectSymbol stop ts
      return (first :: rest, ts)

/-- Goes on with expressions behind commas. -/
def parseTail : Nat → List Token → Except GrammarFaultAt (List Expr × List Token)
  | 0, ts => .ok ([], ts)
  | n + 1, ts =>
    match ts with
    | .symbol .comma :: ts => do
      let (e, ts) ← parseLevel n loosest ts
      let (rest, ts) ← parseTail n ts
      return (e :: rest, ts)
    | ts => .ok ([], ts)

end

/-- Reads an expression and its end. -/
def parseAll (ts : List Token) : Except GrammarFaultAt Expr :=
  if ts.isEmpty then .error (.missing, 0)
  else do
    let (e, rest) ← parseLevel (8 * (ts.length + 2)) loosest ts
    match rest with
    | [] => return e
    | t :: rest => throw (.unexpected (some t), rest.length + 1)

/-- Reads tokens as an expression. -/
def ofTokens (ts : List Token) : Except Fault Expr :=
  (parseAll ts).mapError fun (cause, left) => .grammar cause (ts.length - left)

/-- Reads a text as an expression. -/
def parse (source : String) : Except Fault Expr := do ofTokens (← tokenize source)

end PipelineExpansion.Expression
