import PipelineExpansion.Yaml.Token.Scalar
import PipelineExpansion.Yaml.Token.Tag

/-!
# The tokens of a text

`Supply.ofString` cuts a whole text into tokens. A token is delivered once it is certain that it is not a
key, so a fault hides the tokens that were still uncertain when it was met. With every token comes the
mark up to which the text had been read when it was delivered.
-/

namespace PipelineExpansion.Yaml
namespace Scan

/-- Adds the end of the stream. -/
private def streamEnd : Scan Unit := do
  modify fun s =>
    if s.place.column = 0 then s
    else { s with place := { s.place with column := 0, line := s.place.line + 1 } }
  if (← get).candidates.any fun k => k.required && k.possible then fail .keyExpected
  modify fun s => { s with candidates := s.candidates.map ({ · with possible := false }) }
  closeBlocks (-1)
  allowKey false
  push (← place).mark .streamEnd

/-- Ends a mapping that a colon inside a flow sequence has begun. -/
private def endImplicitMapping : Scan Unit := do
  if (← get).implicitMapping then
    push (← place).mark .flowMappingEnd
    modify fun s => { s with implicitMapping := false, flowMappingOpen := false }

/-- Adds the start of a flow collection. -/
private def flowStart (mapping : Bool) : Scan Unit := do
  saveCandidate
  prepareColumn
  if 255 ≤ (← get).flowDepth then fail .nesting
  modify fun s => { s with flowDepth := s.flowDepth + 1, candidates := .absent :: s.candidates }
  allowKey true
  let start := (← place).mark
  move (·.skip 1)
  if mapping then modify fun s => { s with flowMappingOpen := true }
  let _ ← skipGaps true
  push start (if mapping then .flowMappingStart else .flowSequenceStart)

/-- Adds the end of a flow collection. -/
private def flowEnd (mapping : Bool) : Scan Unit := do
  dropCandidate
  modify fun s =>
    if s.flowDepth = 0 then s
    else { s with flowDepth := s.flowDepth - 1, candidates := s.candidates.drop 1 }
  allowKey false
  endImplicitMapping
  let start := (← place).mark
  move (·.skip 1)
  let _ ← skipGaps true
  modify fun s => if 0 < s.flowDepth then { s with adjacentAt := s.place.index } else s
  push start (if mapping then .flowMappingEnd else .flowSequenceEnd)

/-- Adds the comma between the entries of a flow collection. -/
private def flowEntry : Scan Unit := do
  dropCandidate
  allowKey true
  endImplicitMapping
  let start := (← place).mark
  move (·.skip 1)
  let _ ← skipGaps true
  push start .flowEntry

/-- Adds the hyphen in front of an entry of a block sequence. -/
private def blockEntry : Scan Unit := do
  if ← inFlow then fail .flowHyphen
  let s ← get
  unless s.keyAllowed do fail .entryNotAllowed
  if s.delivered < s.tokens.size then
    match s.tokens.back? with
    | some ⟨mark, .anchor _⟩ | some ⟨mark, .tag _⟩ =>
      if s.place.column = 0 && mark.column = 1 && -1 < s.indent then
        failAt mark .anchorIndentation
    | _ => pure ()
  let start := s.place
  move (·.skip 1)
  openBlock start.column none .blockSequenceStart start.mark
  let gaps ← skipGaps true
  let p ← place
  if gaps.tab && p.next = '-' && isSeparator (p.peek 1) then fail .entryTab
  let _ ← skipGaps false
  let c ← next
  if isBreak c || isFlowIndicator c then prepareColumn
  dropCandidate
  allowKey true
  push (← place).mark .blockEntry

/-- Adds the question mark in front of a key. -/
private def explicitKey : Scan Unit := do
  let s ← get
  let start := s.place
  if s.flowDepth = 0 then
    unless s.keyAllowed do fail .keyNotAllowed
    openBlock start.column none .blockMappingStart start.mark
  else modify fun s => { s with flowMappingOpen := true }
  dropCandidate
  allowKey (s.flowDepth = 0)
  move (·.skip 1)
  skipRequiredSpace
  if (← next) = '\t' then fail .keyTab
  push start.mark .key

/-- Adds the colon in front of a value. The candidate of the level, if there is one, becomes the key. -/
private def value : Scan Unit := do
  let s ← get
  let start := s.place
  let implicitMapping := 0 < s.flowDepth && !s.flowMappingOpen
  set { s with implicitMapping }
  move (·.skip 1)
  if (← next) = '\t' then
    let gaps ← skipGaps true
    let c ← next
    if !gaps.space && (c = '-' || isWordOrLine c) then fail .valueTab
  match s.candidates with
  | key :: below =>
    if key.possible then
      let keyMark : Mark := ⟨key.line, key.column + 1⟩
      insert key.number keyMark .key
      if implicitMapping then
        if key.line < start.line then failAt start.mark .colonPlacement
        insert key.number (← place).mark .flowMappingStart
      openBlock key.column (some key.number) .blockMappingStart start.mark
      prepareColumn
      modify fun s => { s with candidates := { key with possible := false } :: below }
      allowKey false
    else
      if implicitMapping then push (← place).mark .flowMappingStart
      if s.flowDepth = 0 then
        unless s.keyAllowed do failAt start.mark .valueNotAllowed
        openBlock start.column none .blockMappingStart start.mark
      prepareColumn
      allowKey (s.flowDepth = 0)
  | [] => pure ()
  push start.mark .value

/-- Adds a document marker. -/
private def documentMarker (kind : TokenKind) : Scan Unit := do
  closeBlocks (-1)
  dropCandidate
  allowKey false
  let start := (← place).mark
  move (·.skip 3)
  push start kind

/-- Adds the token, other than a document marker, that a character introduces. -/
private def content (c d : Char) : Scan Unit := do
  let s ← get
  let flow := 0 < s.flowDepth
  match c with
  | '[' => flowStart false
  | '\x7b' => flowStart true
  | ']' => flowEnd false
  | '\x7d' => flowEnd true
  | ',' => flowEntry
  | '*' => anchor true
  | '&' => anchor false
  | '!' => tag
  | '\'' => quoted true
  | '"' => quoted false
  | '%' | '@' | '`' => fail (.unexpectedCharacter c)
  | _ =>
    if c = '-' && isSeparator d then blockEntry
    else if c = '?' && isSeparator d then explicitKey
    else if c = ':' && (isSeparator d
        || (flow && (isFlowIndicator d || s.place.index = s.adjacentAt))) then value
    else if c = '|' && !flow then block true
    else if c = '>' && !flow then block false
    else plain

/-- Adds the next token and those that indentation puts in front of it. -/
def fetch : Scan Unit := do
  skipToToken
  expireCandidates
  closeBlocks (← place).column
  let p ← place
  if isEnd p.next then streamEnd
  else if p.column = 0 && p.next = '%' then directive
  else if p.column = 0 && p.isMarker '-' then documentMarker .documentStart
  else if p.column = 0 && p.isMarker '.' then
    documentMarker .documentEnd
    let _ ← skipGaps true
    unless isBreakOrEnd (← next) do fail .afterDocumentEnd
  else if (p.column : Int) < (← get).indent then fail .indentation
  else content p.next (p.peek 1)

end Scan

/-- A token with the mark up to which the text had been read when it was delivered. -/
structure Delivery where
  token : Token
  reached : Mark

/-- The tokens of a text in order, and the fault that ends them early. -/
structure Supply where
  deliveries : List Delivery
  fault : Option FaultAt

/-- Delivers tokens one after another, reading on while the next one may be a key. -/
private def deliver : Nat → Scanner → List Delivery → Supply
  | 0, _, found => ⟨found.reverse, none⟩
  | n + 1, s, found =>
    match s.tokens[s.delivered]? with
    | none =>
      match Scan.fetch.run s with
      | .error fault => ⟨found.reverse, some fault⟩
      | .ok (_, s) => deliver n s found
    | some token =>
      match Scan.expireCandidates.run s with
      | .error fault => ⟨found.reverse, some fault⟩
      | .ok (_, s) =>
        if s.awaitsKey then
          match Scan.fetch.run s with
          | .error fault => ⟨found.reverse, some fault⟩
          | .ok (_, s) => deliver n s found
        else
          let found := ⟨token, s.place.mark⟩ :: found
          if token.kind = .streamEnd then ⟨found.reverse, none⟩
          else deliver n { s with delivered := s.delivered + 1 } found

/-- The tokens of a text. No character gives more than a handful of tokens, which bounds the number of
steps. -/
def Supply.ofString (text : String) : Supply :=
  deliver (16 * (text.length + 4)) (.start text) []

end PipelineExpansion.Yaml
