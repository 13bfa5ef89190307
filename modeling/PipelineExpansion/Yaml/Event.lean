import PipelineExpansion.Diagnostic
import PipelineExpansion.Yaml.Fault
import PipelineExpansion.Yaml.Token.Stream

/-!
# Events of a document

A document is read as a sequence of events: scalars, and the starts and ends of mappings and sequences.
`Document.ofString?` reads the first document of a text. The grammar is followed with a list of goals,
each of which is met by the tokens at hand: it yields events and may put further goals in front.
-/

namespace PipelineExpansion.Yaml

/-- What a document consists of. A scalar is plain when it was written without quotes and not as a block;
only such scalars may stand for null, booleans and numbers. -/
inductive Event where
  | mappingStart
  | mappingEnd
  | sequenceStart
  | sequenceEnd
  | scalar (text : String) (plain : Bool)
deriving DecidableEq, Repr

/-- The name of an event in diagnostics. -/
def Event.describe : Event → String
  | mappingStart => "mapping start"
  | mappingEnd => "mapping end"
  | sequenceStart => "sequence start"
  | sequenceEnd => "sequence end"
  | scalar .. => "scalar"

/-- An event and the stretch of text it covers; the start of a collection covers all of it. -/
structure Spanned where
  event : Event
  span : Span
deriving DecidableEq, Repr

namespace Event

/-- What is expected next while the tokens of a document are read. -/
inductive Goal where
  | node (block indentless : Bool)
  | blockKey
  | blockValue
  | blockEntry
  | indentlessEntry
  | flowEntry (first : Bool)
  | flowKey (first : Bool)
  | flowValue
  | flowNoValue
  | pairKey
  | pairValue
  | pairEnd
deriving DecidableEq, Repr

/-- A found event: one of the document, or a reference to an anchor. -/
inductive Found where
  | event (event : Event)
  | reference

/-- The state of reading events: the tokens left and the fault behind them, the mark up to which the text
had to be read, the anchors met, and the handle the last directive declared. -/
structure Reading where
  deliveries : List Delivery
  fault : FaultAt
  reached : Mark
  anchors : List String
  handle : Option String

/-- A step of reading events. -/
abbrev Read := StateT Reading (Except FaultAt)

namespace Read

/-- The next token, which stays. -/
def peek : Read Token := do
  let r ← get
  match r.deliveries with
  | delivery :: _ =>
    set { r with reached := delivery.reached }
    return delivery.token
  | [] => throw r.fault

/-- Drops the next token. -/
def skip : Read Unit := modify fun r => { r with deliveries := r.deliveries.drop 1 }

/-- Reports a fault at a mark. -/
def failAt {α : Type} (mark : Mark) (fault : Fault) : Read α := throw ⟨fault, mark⟩

/-- What a goal yields: an event with its mark, and the goals that come first now. -/
abbrev Outcome := Option (Found × Mark) × List Goal

/-- An event without further goals. -/
def yields (event : Event) (mark : Mark) (goals : List Goal) : Outcome :=
  (some (.event event, mark), goals)

/-- The null that stands for a node left out. -/
def missing (mark : Mark) (goals : List Goal) : Outcome := yields (.scalar "~" true) mark goals

/-- Checks the handle of a tag that stands at a mark. -/
def checkHandle (mark : Mark) (handle : String) : Read Unit := do
  if handle ≠ "!!" && Scan.isNamedHandle handle && (← get).handle ≠ some handle then
    failAt mark .handleUndeclared

/-- Reads the anchor and the tag in front of a node, in either order: whether there is one. -/
def properties : Read Bool := do
  let t ← peek
  match t.kind with
  | .anchor name =>
    skip
    modify fun r => { r with anchors := name :: r.anchors }
    match (← peek).kind with
    | .tag handle =>
      skip
      checkHandle t.mark handle
    | _ => pure ()
    return true
  | .tag handle =>
    skip
    checkHandle t.mark handle
    match (← peek).kind with
    | .anchor name =>
      skip
      modify fun r => { r with anchors := name :: r.anchors }
    | _ => pure ()
    return true
  | _ => return false

/-- Reads a node, or its start if it is a collection. -/
def node (block indentless : Bool) : Read Outcome := do
  let t ← peek
  match t.kind with
  | .reference name =>
    skip
    if (← get).anchors.contains name then return (some (.reference, t.mark), [])
    else failAt t.mark .anchorUnknown
  | _ =>
    let hasProperties ← properties
    let t ← peek
    match t.kind, block, indentless with
    | .blockEntry, _, true => return yields .sequenceStart t.mark [.indentlessEntry]
    | .scalar text plain, _, _ =>
      skip
      return yields (.scalar text plain) t.mark []
    | .flowSequenceStart, _, _ =>
      skip
      return yields .sequenceStart t.mark [.flowEntry true]
    | .flowMappingStart, _, _ =>
      skip
      return yields .mappingStart t.mark [.flowKey true]
    | .blockSequenceStart, true, _ =>
      skip
      return yields .sequenceStart t.mark [.blockEntry]
    | .blockMappingStart, true, _ =>
      skip
      return yields .mappingStart t.mark [.blockKey]
    | _, _, _ =>
      if hasProperties then return yields (.scalar "" true) t.mark []
      else failAt t.mark .nodeExpected

/-- Reads what follows an indicator: a node, unless one of the tokens comes that show it was left out. -/
def nodeUnless (absent : TokenKind → Bool) (block indentless : Bool) (goal : Goal) : Read Outcome := do
  let t ← peek
  if absent t.kind then return missing t.mark [goal]
  else return (none, [.node block indentless, goal])

/-- The tokens that show that a key or a value of a block mapping was left out. -/
def endsBlockPart (kind : TokenKind) : Bool := [.key, .value, .blockEnd].contains kind

/-- Meets a goal. -/
def meet : Goal → Read Outcome
  | .node block indentless => node block indentless
  | .blockKey => do
    let t ← peek
    match t.kind with
    | .key =>
      skip
      nodeUnless endsBlockPart true true .blockValue
    | .value => return missing t.mark [.blockValue]
    | .blockEnd =>
      skip
      return yields .mappingEnd t.mark []
    | _ => failAt t.mark .blockKeyExpected
  | .blockValue => do
    let t ← peek
    if t.kind = .value then
      skip
      nodeUnless endsBlockPart true true .blockKey
    else return missing t.mark [.blockKey]
  | .blockEntry => do
    let t ← peek
    match t.kind with
    | .blockEnd =>
      skip
      return yields .sequenceEnd t.mark []
    | .blockEntry =>
      skip
      nodeUnless [.blockEntry, .blockEnd].contains true false .blockEntry
    | _ => failAt t.mark .blockEntryExpected
  | .indentlessEntry => do
    let t ← peek
    if t.kind = .blockEntry then
      skip
      nodeUnless [.blockEntry, .key, .value, .blockEnd].contains true false .indentlessEntry
    else return yields .sequenceEnd t.mark []
  | .flowEntry first => do
    let t ← peek
    if t.kind = .flowSequenceEnd then
      skip
      return yields .sequenceEnd t.mark []
    else
      unless first do
        if t.kind = .flowEntry then skip else failAt t.mark .flowSequenceClose
      let t ← peek
      match t.kind with
      | .flowSequenceEnd =>
        skip
        return yields .sequenceEnd t.mark []
      | .key =>
        skip
        return yields .mappingStart t.mark [.pairKey]
      | _ => return (none, [.node false false, .flowEntry false])
  | .flowKey first => do
    let t ← peek
    if t.kind = .flowMappingEnd then
      skip
      return yields .mappingEnd t.mark []
    else
      unless first do
        if t.kind = .flowEntry then skip else failAt t.mark .flowMappingClose
      let u ← peek
      match u.kind with
      | .key =>
        skip
        nodeUnless [.value, .flowEntry, .flowMappingEnd].contains false false .flowValue
      | .value => return missing u.mark [.flowValue]
      | .flowMappingEnd =>
        skip
        return yields .mappingEnd t.mark []
      | _ => return (none, [.node false false, .flowNoValue])
  | .flowValue => do
    let t ← peek
    if t.kind = .value then
      skip
      if [.flowEntry, .flowMappingEnd].contains (← peek).kind then
        return missing t.mark [.flowKey false]
      else return (none, [.node false false, .flowKey false])
    else return missing t.mark [.flowKey false]
  | .flowNoValue => return missing (← peek).mark [.flowKey false]
  | .pairKey => do
    let t ← peek
    if [.value, .flowEntry, .flowSequenceEnd].contains t.kind then
      skip
      return missing t.mark [.pairValue]
    else return (none, [.node false false, .pairValue])
  | .pairValue => do
    let t ← peek
    if t.kind = .value then
      skip
      nodeUnless [.flowEntry, .flowSequenceEnd].contains false false .pairEnd
    else return missing t.mark [.pairEnd]
  | .pairEnd => return yields .mappingEnd (← get).reached [.flowEntry false]

/-- Meets goals until none is left. Every goal reads a token or lets another one do so, which bounds the
number of steps. -/
def meetAll : Nat → List Goal → List (Found × Mark) → Read (List (Found × Mark))
  | _, [], found => return found.reverse
  | 0, _, found => return found.reverse
  | n + 1, goal :: goals, found => do
    let (event, first) ← meet goal
    meetAll n (first ++ goals) (match event with | some e => e :: found | none => found)

/-- Drops tokens of a kind. -/
def skipAll (kind : TokenKind) : Nat → Read Unit
  | 0 => pure ()
  | n + 1 => do
    if (← peek).kind = kind then
      skip
      skipAll kind n

/-- Reads the directives in front of a document; `versioned` says that a version was given. -/
def directives (versioned : Bool) : Nat → Read Unit
  | 0 => pure ()
  | n + 1 => do
    let t ← peek
    match t.kind with
    | .versionDirective =>
      if versioned then failAt t.mark .directiveTwice
      modify fun r => { r with handle := none }
      skip
      directives true n
    | .tagDirective handle =>
      modify fun r => { r with handle := some handle }
      skip
      directives versioned n
    | _ => pure ()

/-- Reads the first document, together with the marker behind it. A stream without a document has no
events. -/
def document : Read (List (Found × Mark)) := do
  let steps := (← get).deliveries.length + 1
  let _ ← peek
  skip
  skipAll .documentEnd steps
  if (← peek).kind = .streamEnd then return []
  let explicit := match (← peek).kind with
    | .versionDirective | .tagDirective _ | .documentStart => true
    | _ => false
  let found ← do
    if explicit then
      directives false steps
      let t ← peek
      unless t.kind = .documentStart do failAt t.mark .documentStartExpected
      skip
      let t ← peek
      match t.kind with
      | .versionDirective | .tagDirective _ | .documentStart | .documentEnd | .streamEnd =>
        pure [(Found.event (.scalar "~" true), t.mark)]
      | _ => meetAll (8 * steps) [.node true false] []
    else meetAll (8 * steps) [.node true false] []
  let t ← peek
  match t.kind with
  | .versionDirective | .tagDirective _ => failAt t.mark .directiveWithoutEnd
  | _ => return found

end Read

/-- The stretch a scalar covers. One that spans lines counts as a point, any other is as wide as its text
and its quotes. -/
def scalarSpan (start : Mark) (text : String) (plain : Bool) : Span :=
  if text.toList.contains '\n' then .point start
  else ⟨start, ⟨start.line, start.column + text.length + if plain then 0 else 2⟩⟩

/-- Gives every event its stretch. The events are taken from the last one on, with the marks of the
collection ends that still lack their start. -/
def withSpans : List (Event × Mark) → List Spanned :=
  fun events => (events.foldr (fun (event, mark) (spanned, ends) =>
    match event with
    | .mappingEnd | .sequenceEnd => (⟨event, .point mark⟩ :: spanned, mark :: ends)
    | .mappingStart | .sequenceStart =>
      (⟨event, ⟨mark, ends.headD mark⟩⟩ :: spanned, ends.drop 1)
    | .scalar text plain => (⟨event, scalarSpan mark text plain⟩ :: spanned, ends))
    (([], []) : List Spanned × List Mark)).1

end Event

/-- Why a text is refused as a document: it is no YAML, or it refers to an anchor. -/
inductive Refusal where
  | fault (fault : FaultAt)
  | reference (mark : Mark)

/-- The position a refusal is reported at. -/
def Refusal.mark : Refusal → Mark
  | fault f => f.mark
  | reference m => m

/-- The wording of a refusal. -/
def Refusal.message : Refusal → String
  | fault f => f.fault.message
  | reference _ => "YAML aliases are not supported"

/-- The events of the first document of a text. Anchors are admitted, references to them are not. -/
def Document.ofString? (text : String) : Except Refusal (List Spanned) :=
  let supply := Supply.ofString text
  let start : Event.Reading :=
    { deliveries := supply.deliveries
      fault := supply.fault.getD ⟨.endReached, ⟨1, 1⟩⟩
      reached := ⟨1, 1⟩
      anchors := []
      handle := none }
  match Event.Read.document.run start with
  | .error fault => .error (.fault fault)
  | .ok (found, _) =>
    match found.find? fun (f, _) => match f with | .reference => true | .event _ => false with
    | some (_, mark) => .error (.reference mark)
    | none =>
      .ok (Event.withSpans (found.filterMap fun (f, mark) =>
        match f with | .event e => some (e, mark) | .reference => none))

/-! ### Refusals as diagnostics -/

/-- The diagnostic of a refused text. -/
def Refusal.diagnostic (r : Refusal) : Diagnostic := .shapeAt (some (.point r.mark)) r.message

/-- The events of the first document of a text. -/
def events (text : String) : Except Diagnostic (List Spanned) :=
  (Document.ofString? text).mapError Refusal.diagnostic

end PipelineExpansion.Yaml
