import PipelineExpansion.Expression.Evaluate
import PipelineExpansion.Expression.Segment
import PipelineExpansion.Template.Limits
import PipelineExpansion.Text.Blank
import PipelineExpansion.Text.Pieces

/-!
# Evaluating templates

A key that is an expression may be a directive: a condition of a chain, a loop, or an insertion. What
stands under it is evaluated as often as the directive says and becomes part of the collection around it.

`evaluate` replaces the expressions in a token by their values and carries out its directives. Every node
is charged an event and checked for its depth; texts made by expressions are charged their bytes.

Inside a sequence, an item that is one expression with a sequence for its value contributes the items of
that sequence. Inside a mapping, no two entries may have one name, wherever they come from.
-/

namespace PipelineExpansion.Template

/-! ### Directives -/

/-- What a key may ask for. -/
inductive Directive where
  | when (condition : String)
  | elseWhen (condition : String)
  | otherwise
  | each (name collection : String)
  | insert
deriving DecidableEq, Repr

namespace Directive

/-- The text between `${{` and `}}` of a key that is nothing else. -/
def inner? (key : String) : Option String := do
  let rest ← Text.stripPrefix? "$\x7b\x7b" (Text.trim key)
  let body ← Text.stripSuffix? "\x7d\x7d" rest
  return Text.trim body

/-- The directive that a text names. -/
def ofInner? (inner : String) : Option Directive :=
  match Text.stripPrefix? "if " inner with
  | some condition => some (.when (Text.trim condition))
  | none =>
    match Text.stripPrefix? "elseif " inner <|> Text.stripPrefix? "else if " inner with
    | some condition => some (.elseWhen (Text.trim condition))
    | none =>
      if inner = "else" then some .otherwise
      else if inner = "insert" then some .insert
      else do
        let loop ← Text.stripPrefix? "each " inner
        let (name, collection) ← Text.splitOnce? " in " loop
        let (name, collection) := (Text.trim name, Text.trim collection)
        if name.isEmpty || collection.isEmpty then none else some (.each name collection)

/-- The directive of a key. -/
def ofKey? (key : String) : Option Directive := (inner? key).bind ofInner?

end Directive

/-! ### Expressions in texts -/

/-- The diagnostic of an expression that fails. -/
def expressionFault (span : Option Yaml.Span) (source : String) (f : Expression.Fault) : Diagnostic :=
  let d := f.diagnostic
  { d with message := source ++ ": " ++ d.message }.withSpan span

/-- The value of an expression. -/
def evalExpression (names : Token) (span : Option Yaml.Span) (source : String) :
    Except Diagnostic Token :=
  (Expression.evaluate source names).mapError (expressionFault span source)

/-- The text of a segment. -/
def segmentText (names : Token) (span : Option Yaml.Span) : Expression.Segment → Except Diagnostic String
  | .text s => .ok s
  | .expression source => do
    let value ← evalExpression names span source
    match value.display? with
    | some s => return s
    | none =>
      throw (.shapeAt span ("A " ++ value.kindName ++
        " cannot be inserted into a string: '$\x7b\x7b " ++ source ++ " \x7d\x7d'"))

/-- Evaluates a text: one that is an expression becomes its value, otherwise the values of the expressions
take their places in the text. -/
def evalText (l : Limits) (names : Token) (o : Origin) (s : String) : Charged Token := do
  if !Expression.hasExpression s then return .text o s
  match Expression.wholeExpression? s with
  | some source =>
    let value ← evalExpression names o.span source
    let value := value.locatedAt (.text o s)
    match value with
    | .text _ result => l.chargeBytes result.utf8ByteSize
    | _ => pure ()
    return value
  | none =>
    let segments ← (Expression.segments s).mapError (expressionFault o.span s)
    let texts : Except Diagnostic (List String) := segments.mapM (segmentText names o.span)
    let result := String.join (← texts)
    l.chargeBytes result.utf8ByteSize
    return .text o result

/-! ### Branches and loops -/

/-- Where a chain of conditions stands: outside of any, or inside one that has or has not had a true
condition. -/
abbrev Chain := Option Bool

/-- What becomes of the body of a directive. -/
inductive Branch where
  | take (next : Chain)
  | skip (next : Chain)
  | loop (name : String) (collection : Token)

/-- Evaluates a condition. -/
def branchOn (names : Token) (key : Key) (condition : String) : Except Diagnostic Branch := do
  if (← evalExpression names key.origin.span condition).truthy then return .take (some true)
  else return .skip (some false)

/-- Decides what becomes of the body of a directive. -/
def selectBranch (names : Token) (key : Key) (directive : Directive) (chain : Chain) :
    Except Diagnostic Branch :=
  match directive, chain with
  | .when condition, _ => branchOn names key condition
  | .elseWhen _, none => .error (key.fault "Unexpected 'elseif' without a preceding 'if'")
  | .elseWhen _, some true => .ok (.skip (some true))
  | .elseWhen condition, some false => branchOn names key condition
  | .otherwise, none => .error (key.fault "Unexpected 'else' without a preceding 'if'")
  | .otherwise, some true => .ok (.skip none)
  | .otherwise, some false => .ok (.take none)
  | .each name collection, _ => do
    return .loop name (← evalExpression names key.origin.span collection)
  | .insert, _ => .ok (.take none)

/-- The elements of a collection. Those of a mapping are mappings of a key and a value. -/
def elements (key : Key) : Token → Except Diagnostic (List Token)
  | .null _ => .ok []
  | .sequence _ items => .ok items
  | .mapping _ entries =>
    .ok (entries.map fun (k, v) => .ofPairs [("key", .text k.origin k.name), ("value", v)])
  | t => .error (key.fault ("Expected a sequence or mapping to iterate, found " ++ t.kindName))

/-- The named values with a name bound anew. -/
def bindName (names : Token) (name : String) (value : Token) : Token :=
  let kept := (names.entries?.getD []).filter fun (k, _) => !Text.sameName k.name name
  .mapping .unknown (kept ++ [(⟨.unknown, name⟩, value)])

/-- The named values of each round of a loop. -/
def rounds (names : Token) (key : Key) (name : String) (collection : Token) :
    Except Diagnostic (List Token) :=
  (elements key collection).map fun items => items.map (bindName names name)

/-! ### Collections -/

/-- Adds an entry whose name must be new. -/
def addEntry (entries : List Entry) (e : Entry) : Except Diagnostic (List Entry) :=
  if entries.any fun (k, _) => k.name = e.1.name then
    .error (e.1.fault ("'" ++ e.1.name ++ "' is already defined"))
  else .ok (entries ++ [e])

/-- Adds the entries that the body of a directive has for a mapping. -/
def mergeBody (key : Key) (entries : List Entry) : Token → Except Diagnostic (List Entry)
  | .null _ => .ok entries
  | .mapping _ more => more.foldlM addEntry entries
  | t => .error (key.fault ("Expected a mapping inside '" ++ key.name ++ "', found " ++ t.kindName))

/-- A value as the name of an entry. -/
def keyOf (t : Token) : Except Diagnostic Key :=
  match t.display? with
  | some name => .ok ⟨t.origin, name⟩
  | none => .error (t.fault "A mapping key must evaluate to a string")

/-- Evaluates the name of an entry, which is at a depth. -/
def evalKey (l : Limits) (names : Token) (depth : Nat) (key : Key) : Charged Key := do
  l.enter depth
  keyOf (← evalText l names key.origin key.name)

/-- What an item that was no directive contributes to its sequence. -/
def spliced (item value : Token) : List Token :=
  match item, value with
  | .text .., .sequence _ items => items
  | _, _ => [value]

/-- What the body of a directive contributes to a sequence. -/
def bodyItems : Token → List Token
  | .sequence _ items => items
  | .null _ => []
  | t => [t]

/-- The directive that an item of a sequence is: a mapping with one entry, under a directive. -/
def itemDirective? : Token → Option (Key × Directive)
  | .mapping _ [(key, _)] => (Directive.ofKey? key.name).map fun d => (key, d)
  | _ => none

mutual

/-- Evaluates a token at a depth. -/
def evalToken (l : Limits) (names : Token) (depth : Nat) : Token → Charged Token
  | .text o s => do
    l.enter depth
    evalText l names o s
  | .sequence o items => do
    l.enter depth
    return .sequence o (← evalItems l names depth none items)
  | .mapping o entries => do
    l.enter depth
    return .mapping o (← evalEntries l names depth none [] entries)
  | t => do
    l.enter depth
    return t
termination_by structural t => t

/-- Evaluates the items of a sequence that is at a depth. -/
def evalItems (l : Limits) (names : Token) (depth : Nat) (chain : Chain) :
    List Token → Charged (List Token)
  | [] => return []
  | item :: rest =>
    match itemDirective? item with
    | none => do
      let value ← evalToken l names (depth + 1) item
      let more ← evalItems l names depth none rest
      return spliced item value ++ more
    | some (key, directive) => do
      match ← selectBranch names key directive chain with
      | .take next =>
        let own ← evalBody l names depth item
        let more ← evalItems l names depth next rest
        return own ++ more
      | .skip next => evalItems l names depth next rest
      | .loop name collection =>
        let own ← (← rounds names key name collection).mapM fun names => evalBody l names depth item
        let more ← evalItems l names depth none rest
        return own.flatten ++ more
termination_by structural items => items

/-- Evaluates what stands under the directive of an item, for a sequence at a depth. The items of a
sequence there are items of the sequence around it, with a chain of their own. -/
def evalBody (l : Limits) (names : Token) (depth : Nat) : Token → Charged (List Token)
  | .mapping _ [(_, body)] =>
    match body with
    | .null _ => return []
    | .sequence _ items => evalItems l names (depth + 1) none items
    | body => do return bodyItems (← evalToken l names (depth + 1) body)
  | _ => return []
termination_by structural item => item

/-- Evaluates the entries of a mapping that is at a depth, and adds them to `done`. -/
def evalEntries (l : Limits) (names : Token) (depth : Nat) (chain : Chain) (done : List Entry) :
    List (Key × Token) → Charged (List Entry)
  | [] => return done
  | (key, value) :: rest =>
    match Directive.ofKey? key.name with
    | none => do
      let key ← evalKey l names (depth + 1) key
      let value ← evalToken l names (depth + 1) value
      evalEntries l names depth none (← addEntry done (key, value)) rest
    | some directive => do
      match ← selectBranch names key directive chain with
      | .take next =>
        let body ← evalToken l names (depth + 1) value
        evalEntries l names depth next (← mergeBody key done body) rest
      | .skip next => evalEntries l names depth next done rest
      | .loop name collection =>
        let done ← (← rounds names key name collection).foldlM
          (fun done names => do mergeBody key done (← evalToken l names (depth + 1) value)) done
        evalEntries l names depth none done rest
termination_by structural entries => entries

end

/-- Evaluates a token against named values. -/
def evaluate (l : Limits) (t names : Token) : Charged Token := evalToken l names 1 t

end PipelineExpansion.Template
