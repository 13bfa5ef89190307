import PipelineExpansion.Yaml.Fault
import PipelineExpansion.Yaml.Token
import PipelineExpansion.Yaml.Token.Place

/-!
# The state of cutting a text into tokens

Besides the place in the text, the state holds the tokens found so far, the open indentations and, for
every flow level, the token that may turn out to be a key once a colon is met. Tokens are numbered from
the start of the text; those below `delivered` have been handed out and nothing is inserted before them.
-/

namespace PipelineExpansion.Yaml

/-- A token that may be a key: `possible` until the line is left or another candidate takes its place, and
`required` when its indentation leaves no other reading. -/
structure KeyCandidate where
  possible : Bool
  required : Bool
  number : Nat
  index : Nat
  line : Nat
  column : Nat

/-- A level of indentation that an inner one will return to. `closes` says that leaving the inner level
ends a block collection. -/
structure Indentation where
  outer : Int
  closes : Bool

/-- The state of cutting a text into tokens. -/
structure Scanner where
  place : Place
  tokens : Array Token
  delivered : Nat
  candidates : List KeyCandidate
  keyAllowed : Bool
  indent : Int
  indentations : List Indentation
  flowDepth : Nat
  /-- The index at which a colon is a value indicator whatever follows it. -/
  adjacentAt : Nat
  flowMappingOpen : Bool
  implicitMapping : Bool

/-- A step of cutting a text into tokens. -/
abbrev Scan := StateT Scanner (Except FaultAt)

/-- A candidate that is none. -/
def KeyCandidate.absent : KeyCandidate := ⟨false, false, 0, 0, 0, 0⟩

/-- The state at the start of a text, with the start of the stream as its only token. -/
def Scanner.start (text : String) : Scanner where
  place := .ofString text
  tokens := #[⟨⟨1, 1⟩, .streamStart⟩]
  delivered := 0
  candidates := [.absent]
  keyAllowed := true
  indent := -1
  indentations := []
  flowDepth := 0
  adjacentAt := 0
  flowMappingOpen := false
  implicitMapping := false

namespace Scan

/-- The current place. -/
def place : Scan Place := return (← get).place

/-- The next character. -/
def next : Scan Char := return (← get).place.next

/-- Moves the place. -/
def move (f : Place → Place) : Scan Unit := modify fun s => { s with place := f s.place }

/-- Reports a fault at a mark. -/
def failAt {α : Type} (mark : Mark) (fault : Fault) : Scan α := throw ⟨fault, mark⟩

/-- Reports a fault at the current place. -/
def fail {α : Type} (fault : Fault) : Scan α := do failAt (← place).mark fault

/-- Repeats a step while it answers a new value, at most `n` times. -/
def iterate {σ : Type} (step : σ → Scan (σ × Bool)) : Nat → σ → Scan σ
  | 0, acc => pure acc
  | n + 1, acc => do
    let (acc, more) ← step acc
    if more then iterate step n acc else pure acc

/-- Repeats a step that reads at least one character whenever it asks to go on. -/
def loop {σ : Type} (acc : σ) (step : σ → Scan (σ × Bool)) : Scan σ := do
  iterate step ((← place).rest.length + 1) acc

/-- Reads the longest run of characters of a class. -/
def takeRun (inClass : Char → Bool) : Scan String := do
  let (cs, place) := (← Scan.place).spanOf inClass
  modify fun s => { s with place }
  return String.ofList cs

/-- Adds a token after all others. -/
def push (mark : Mark) (kind : TokenKind) : Scan Unit :=
  modify fun s => { s with tokens := s.tokens.push ⟨mark, kind⟩ }

/-- Adds a token in front of the one with a number. -/
def insert (number : Nat) (mark : Mark) (kind : TokenKind) : Scan Unit :=
  modify fun s =>
    { s with tokens :=
        s.tokens.extract 0 number ++ #[⟨mark, kind⟩] ++ s.tokens.extract number s.tokens.size }

/-- Lets the next token be a key, or forbids it. -/
def allowKey (allowed : Bool) : Scan Unit := modify fun s => { s with keyAllowed := allowed }

/-- Whether a collection in brackets or braces is open. -/
def inFlow : Scan Bool := return (← get).flowDepth > 0

/-- The blanks `skipGaps` has met: tabs, spaces. -/
structure Gaps where
  tab : Bool
  space : Bool

/-- Reads over blanks and a comment up to the end of the line; with `tabs` false, a tab is content. -/
def skipGaps (tabs : Bool) : Scan Gaps :=
  loop ⟨false, false⟩ fun seen => do
    let c ← next
    if c = ' ' then
      move .skipGap
      return ({ seen with space := true }, true)
    else if c = '\t' && tabs then
      move .skipGap
      return ({ seen with tab := true }, true)
    else if c = '#' then
      if seen.tab || seen.space then
        move .skipLine
        return (seen, true)
      else fail .commentNotSeparated
    else return (seen, false)

/-- Reads over blanks, line breaks and comments up to the next token. A tab in front of content is a fault
where it stands for indentation of a block. -/
def skipToToken : Scan Unit :=
  loop () fun _ => do
    let s ← get
    let c := s.place.next
    if c = '\t' && !s.indentations.isEmpty && s.place.fresh && (s.place.column : Int) < s.indent then
      let _ ← skipGaps true
      if isBreakOrEnd (← next) then return ((), true) else fail .blockTab
    else if isGap c then
      move .skipGap
      return ((), true)
    else if isBreak c then
      move .lineBreak
      unless ← inFlow do allowKey true
      return ((), true)
    else if c = '#' then
      move .skipLine
      return ((), true)
    else return ((), false)

/-- Reads over spaces, line breaks and comments; at least one space or break has to be there. -/
def skipRequiredSpace : Scan Unit := do
  let found ← loop false fun found => do
    let c ← next
    if c = ' ' then
      move .skipGap
      return (true, true)
    else if isBreak c then
      move .lineBreak
      unless ← inFlow do allowKey true
      return (true, true)
    else if c = '#' then
      move .skipLine
      return (found, true)
    else return (found, false)
  unless found do fail .whitespaceExpected

/-! ### Indentation -/

/-- Forgets an innermost level that was prepared for content and does not close a collection. -/
private def dropPrepared (s : Scanner) : Scanner :=
  match s.indentations with
  | top :: below => if top.closes then s else { s with indent := top.outer, indentations := below }
  | [] => s

/-- Opens a block collection at a column, unless one is open there; `number` is the token the start goes
in front of, the end of the tokens by default. -/
def openBlock (column : Nat) (number : Option Nat) (kind : TokenKind) (mark : Mark) : Scan Unit := do
  unless ← inFlow do
    if (← get).indent ≤ column then modify dropPrepared
    let s ← get
    if s.indent < column then
      set { s with indentations := ⟨s.indent, true⟩ :: s.indentations, indent := column }
      insert (number.getD s.tokens.size) mark kind

/-- Ends the block collections that are indented deeper than a column. -/
private def closeDeeper (column : Int) (mark : Mark) :
    List Indentation → Int → Array Token → List Indentation × Int × Array Token
  | [], indent, tokens => ([], indent, tokens)
  | top :: below, indent, tokens =>
    if column < indent then
      closeDeeper column mark below top.outer
        (if top.closes then tokens.push ⟨mark, .blockEnd⟩ else tokens)
    else (top :: below, indent, tokens)

/-- Ends the block collections that are indented deeper than a column; inside a flow collection
indentation means nothing. -/
def closeBlocks (column : Int) : Scan Unit := do
  unless ← inFlow do
    modify fun s =>
      let (indentations, indent, tokens) :=
        closeDeeper column s.place.mark s.indentations s.indent s.tokens
      { s with indentations, indent, tokens }

/-- Prepares one more column of indentation for the content of an entry. -/
def prepareColumn : Scan Unit :=
  modify fun s =>
    match s.indentations with
    | top :: _ =>
      if s.flowDepth = 0 && top.closes then
        { s with indentations := ⟨s.indent, false⟩ :: s.indentations, indent := s.indent + 1 }
      else s
    | [] => s

/-- Forgets every prepared level on top of the innermost collection. -/
def dropPreparedColumns : Scan Unit :=
  modify fun s =>
    let rec go : List Indentation → Int → List Indentation × Int
      | [], indent => ([], indent)
      | top :: below, indent => if top.closes then (top :: below, indent) else go below top.outer
    let (indentations, indent) := go s.indentations s.indent
    { s with indentations, indent }

/-! ### Candidates for keys -/

/-- Makes the token that comes next the candidate of the current level. -/
def saveCandidate : Scan Unit :=
  modify fun s =>
    if s.keyAllowed then
      let required := s.flowDepth = 0 && s.indent = (s.place.column : Int)
        && (s.indentations.head?.map (·.closes)).getD false
      { s with candidates :=
          ⟨true, required, s.tokens.size, s.place.index, s.place.line, s.place.column⟩
            :: s.candidates.drop 1 }
    else s

/-- Gives up the candidate of the current level. -/
def dropCandidate : Scan Unit := do
  match (← get).candidates with
  | top :: below =>
    if top.possible && top.required then fail .keyExpected
    modify fun s => { s with candidates := { top with possible := false } :: below }
  | [] => pure ()

/-- Gives up the candidates whose line has been left: outside flow collections a key stands on one line,
within 1024 characters of its colon. -/
def expireCandidates : Scan Unit := do
  let s ← get
  if s.flowDepth = 0 then
    let expired (k : KeyCandidate) : Bool :=
      k.possible && (k.line < s.place.line || k.index + 1024 < s.place.index)
    if s.candidates.any fun k => expired k && k.required then fail .keyWithoutColon
    set { s with candidates :=
            s.candidates.map fun k => if expired k then { k with possible := false } else k }

end Scan

/-- Whether the token to be delivered next may still turn out to be a key. -/
def Scanner.awaitsKey (s : Scanner) : Bool :=
  s.candidates.any fun k => k.possible && k.number = s.delivered

end PipelineExpansion.Yaml
