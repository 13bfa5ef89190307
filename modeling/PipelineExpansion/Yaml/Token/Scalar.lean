import PipelineExpansion.Yaml.Token.State

/-!
# Scalars

A scalar is written plain, between quotes, or as a block under an indicator. Inside the first two, a
single line break counts as a space and further ones are kept; a block keeps its breaks (`|`) or joins
lines in the same way (`>`).
-/

namespace PipelineExpansion.Yaml

/-- The text of a scalar while it is read: the text so far, the blanks after it on the same line, whether
a line break follows it, and how many empty lines follow that. -/
structure Folding where
  text : String := ""
  blanks : String := ""
  broken : Bool := false
  empty : Nat := 0

/-- `n` line feeds. -/
def lineFeeds (n : Nat) : String := String.ofList (List.replicate n '\n')

/-- Joins the lines: a break alone becomes a space, the empty lines after one become line feeds. -/
def Folding.joinLines (f : Folding) : Folding :=
  { text := f.text ++ (if f.broken && f.empty = 0 then " " else lineFeeds f.empty), blanks := f.blanks }

/-- Appends the blanks that turned out to stand inside a line. -/
def Folding.joinBlanks (f : Folding) : Folding :=
  { f with text := f.text ++ f.blanks, blanks := "" }

/-- Notes a line break: the first one drops the blanks before it. -/
def Folding.lineBreak (f : Folding) (further : Bool) : Folding :=
  if further then { f with empty := f.empty + 1 } else { f with blanks := "", broken := true }

namespace Scan

/-! ### Plain scalars -/

/-- Whether a plain scalar goes on with the next character: a colon that introduces a value ends it, and
so does an indicator inside a flow collection. -/
private def continuesPlain (p : Place) (flow : Bool) : Bool :=
  let c := p.next
  if c = ':' && (isSeparator (p.peek 1) || (flow && isFlowIndicator (p.peek 1))) then false
  else !(flow && isFlowIndicator c)

/-- Reads the part of a plain scalar that holds no blanks. -/
private def plainRun (flow : Bool) : Scan String :=
  loop "" fun text => do
    let p ← place
    if !isSeparator p.next && continuesPlain p flow then
      move (·.skip 1)
      return (text.push p.next, true)
    else return (text, false)

/-- Reads the blanks and line breaks after a part of a plain scalar. -/
private def plainGaps (start : Mark) (indent : Int) (f : Folding) : Scan Folding :=
  loop f fun f => do
    let p ← place
    if isGap p.next then
      if !p.fresh then
        move .skipGap
        return ({ f with blanks := f.blanks.push p.next }, true)
      else if (p.column : Int) < indent && p.next = '\t' then
        let _ ← skipGaps true
        unless isBreakOrEnd (← next) do failAt start .plainTab
        return (f, true)
      else
        move .skipGap
        return (f, true)
    else if isBreak p.next then
      move .lineBreak
      return (f.lineBreak p.fresh, true)
    else return (f, false)

/-- Adds a plain scalar. -/
def plain : Scan Unit := do
  saveCandidate
  allowKey false
  dropPreparedColumns
  let flow ← inFlow
  let indent := (← get).indent + 1
  let p ← place
  let start := p.mark
  if flow && (p.column : Int) < indent then failAt start .flowIndentation
  let f ← loop {} fun (f : Folding) => do
    let p ← place
    if (p.column = 0 && p.isDocumentMarker) || p.next = '#' then return (f, false)
    else
      if flow && p.next = '-' && isFlowIndicator (p.peek 1) then fail .plainHyphen
      let f ←
        if !isSeparator p.next && continuesPlain p flow then do
          let f := if p.fresh then f.joinLines else f.joinBlanks
          let part ← plainRun flow
          pure { f with text := f.text ++ part }
        else pure f
      let c ← next
      if isGap c || isBreak c then
        let f ← plainGaps start indent f
        return (f, flow || indent ≤ (← place).column)
      else return (f, false)
  if (← place).fresh then allowKey true
  if f.text.isEmpty then failAt start .plainEmpty
  push start (.scalar f.text true)

/-! ### Quoted scalars -/

/-- What the letter after a backslash stands for: a character, or the number of hexadecimal digits that
give one. -/
private def escapeOf : Char → Option (Char ⊕ Nat)
  | '0' => some (.inl '\x00')
  | 'a' => some (.inl '\x07')
  | 'b' => some (.inl '\x08')
  | 't' => some (.inl '\t')
  | '\t' => some (.inl '\t')
  | 'n' => some (.inl '\n')
  | 'v' => some (.inl '\x0b')
  | 'f' => some (.inl '\x0c')
  | 'r' => some (.inl '\r')
  | 'e' => some (.inl '\x1b')
  | ' ' => some (.inl ' ')
  | '"' => some (.inl '"')
  | '/' => some (.inl '/')
  | '\\' => some (.inl '\\')
  | 'N' => some (.inl '\x85')
  | '_' => some (.inl '\u00a0')
  | 'L' => some (.inl '\u2028')
  | 'P' => some (.inl '\u2029')
  | 'x' => some (.inr 2)
  | 'u' => some (.inr 4)
  | 'U' => some (.inr 8)
  | _ => none

/-- Reads a backslash and what it escapes. -/
private def escape (start : Mark) : Scan Char := do
  match escapeOf ((← place).peek 1) with
  | none => failAt start .quotedEscape
  | some (.inl c) =>
    move (·.skip 2)
    return c
  | some (.inr n) =>
    move (·.skip 2)
    let p ← place
    let digits := (List.range n).map p.peek
    unless digits.all isHexDigit do failAt start .quotedHex
    let code := digits.foldl (fun code d => code * 16 + hexValue d) 0
    unless code.isValidChar do failAt start .quotedCodePoint
    move (·.skip n)
    return Char.ofNat code

/-- Reads the part of a quoted scalar that holds no blanks; the answer says whether it ended with an
escaped line break. -/
private def quotedRun (single : Bool) (start : Mark) : Scan (String × Bool) :=
  loop ("", false) fun (text, _) => do
    let p ← place
    let c := p.next
    if isSeparator c then return ((text, false), false)
    else if single && c = '\'' && p.peek 1 = '\'' then
      move (·.skip 2)
      return ((text.push '\'', false), true)
    else if c = (if single then '\'' else '"') then return ((text, false), false)
    else if !single && c = '\\' then
      if isBreak (p.peek 1) then
        move (·.skip 1)
        move .lineBreak
        return ((text, true), false)
      else return ((text.push (← escape start), false), true)
    else
      move (·.skip 1)
      return ((text.push c, false), true)

/-- Reads the blanks and line breaks after a part of a quoted scalar; `broken` says that a line break came
before. -/
private def quotedGaps (f : Folding) (broken : Bool) : Scan (Folding × Bool) :=
  loop (f, broken) fun (f, broken) => do
    let p ← place
    if isGap p.next then
      if broken then
        if p.next = '\t' && (p.column : Int) < (← get).indent then fail .quotedTab
        move .skipGap
        return ((f, broken), true)
      else
        move .skipGap
        return (({ f with blanks := f.blanks.push p.next }, broken), true)
    else if isBreak p.next then
      move .lineBreak
      return ((f.lineBreak broken, true), true)
    else return ((f, broken), false)

/-- Reads a quoted scalar, both quotes included. -/
private def quotedText (single : Bool) (start : Mark) : Scan String := do
  move (·.skip 1)
  let f ← loop {} fun (f : Folding) => do
    let p ← place
    if p.column = 0 && p.isDocumentMarker then failAt start .quotedDocumentIndicator
    if isEnd p.next then failAt start .quotedUnclosed
    if (p.column : Int) < (← get).indent then failAt start .quotedIndentation
    let (part, escapedBreak) ← quotedRun single start
    let f := { f with text := f.text ++ part }
    if (← next) = (if single then '\'' else '"') then return (f, false)
    else
      let (f, broken) ← quotedGaps f escapedBreak
      return (if broken then f.joinLines else f.joinBlanks, true)
  move (·.skip 1)
  return f.text

/-- Adds a quoted scalar. After it only the end of its line, an indicator or a colon may follow. -/
def quoted (single : Bool) : Scan Unit := do
  saveCandidate
  allowKey false
  let p ← place
  let start := p.mark
  let text ← quotedText single start
  let _ ← skipGaps true
  let flow ← inFlow
  let after ← place
  let c := after.next
  unless isBreakOrEnd c || (flow && [',', ']', '\x7d', ':'].contains c)
      || (!flow && c = ':' && p.line = after.line) do
    fail .quotedTail
  skipToToken
  modify fun s => { s with adjacentAt := s.place.index }
  push start (.scalar text false)

/-! ### Block scalars -/

/-- What becomes of the line breaks at the end of a block. -/
inductive Chomping where
  | clip
  | strip
  | keep
deriving DecidableEq

/-- Reads a chomping indicator. -/
private def chomping : Scan (Option Chomping) := do
  let c ← next
  if c = '+' || c = '-' then
    move (·.skip 1)
    return some (if c = '+' then .keep else .strip)
  else return none

/-- Reads an indentation indicator. -/
private def increment (start : Mark) : Scan (Option Nat) := do
  let c ← next
  if c.isDigit then
    if c = '0' then failAt start .blockIndicatorZero
    move (·.skip 1)
    return some (c.toNat - '0'.toNat)
  else return none

/-- Reads spaces up to a column. -/
private def skipSpaces (column : Option Nat) : Scan Unit :=
  loop () fun _ => do
    let p ← place
    if p.next = ' ' && column.all (p.column < ·) then
      move .skipGap
      return ((), true)
    else return ((), false)

/-- Reads empty lines and the indentation of the line after them: how many there are. -/
private def blockIndent (indent : Nat) (breaks : Nat) : Scan Nat :=
  loop breaks fun breaks => do
    skipSpaces (some indent)
    if isBreak (← next) then
      move .lineBreak
      return (breaks + 1, true)
    else return (breaks, false)

/-- Reads empty lines and the indentation of the first line of content, which sets that of the block. -/
private def firstIndent : Scan (Nat × Nat) := do
  let (deepest, breaks) ← loop (0, 0) fun (deepest, breaks) => do
    skipSpaces none
    let deepest := max deepest (← place).column
    if isBreak (← next) then
      move .lineBreak
      return ((deepest, breaks + 1), true)
    else return ((deepest, breaks), false)
  let outer := (← get).indent
  let indent := max deepest (outer + 1).toNat
  return (if outer > 0 then max indent 1 else indent, breaks)

/-- The lines of a block while they are read: the text, whether the last line ended with a break, whether
it began with a blank, and the number of empty lines after it. -/
private structure BlockLines where
  text : String
  broken : Bool
  blank : Bool
  empty : Nat

/-- Reads the lines of a block. In a folded one, two lines are joined by a space unless one of them begins
with a blank. -/
private def blockLines (literal : Bool) (indent : Nat) (empty : Nat) : Scan BlockLines :=
  loop ⟨"", false, false, empty⟩ fun lines => do
    let p ← place
    if p.column = indent && !isEnd p.next && !(indent = 0 && p.isMarker '.') then
      let blank := isGap p.next
      let joint :=
        if !literal && lines.broken && !lines.blank && !blank then
          if lines.empty = 0 then " " else lineFeeds lines.empty
        else (if lines.broken then "\n" else "") ++ lineFeeds lines.empty
      let run := p.rest.takeWhile fun c => !isBreakOrEnd c
      move fun p => { p.skip run.length with fresh := p.fresh }
      let text := lines.text ++ joint ++ String.ofList run
      if isEnd (← next) then return (⟨text, false, blank, 0⟩, false)
      else
        move .lineBreak
        let empty ← blockIndent indent 0
        return (⟨text, true, blank, empty⟩, true)
    else return (lines, false)

/-- Adds a block scalar. A block without a line of content is reported where its indicator stands, any
other where its content starts. -/
def block (literal : Bool) : Scan Unit := do
  saveCandidate
  allowKey true
  let start := (← place).mark
  move (·.skip 1)
  dropPreparedColumns
  let (chomp, increment) ← do
    match ← chomping with
    | some chomp => pure (chomp, ← increment start)
    | none =>
      match ← increment start with
      | some n => pure ((← chomping).getD .clip, some n)
      | none => pure (.clip, none)
  let _ ← skipGaps true
  let c ← next
  unless isBreakOrEnd c do failAt start .blockHeaderTail
  let headerBreak := isBreak c
  move .lineBreak
  if (← next) = '\t' then failAt start .blockTabStart
  let outer := (← get).indent
  let (indent, empty) ←
    match increment with
    | some n => do
      let indent := n + outer.toNat
      pure (indent, ← blockIndent indent 0)
    | none => firstIndent
  let p ← place
  if isEnd p.next then
    let text :=
      if chomp = .strip || p.line = start.line then ""
      else if chomp = .keep && 0 < empty then lineFeeds empty
      else if headerBreak then "\n" else ""
    push start (.scalar text false)
  else
    if p.column < indent && outer < (p.column : Int) then fail .blockIndentation
    let lines ← blockLines literal indent empty
    let after ← place
    let text :=
      if chomp = .strip then lines.text
      else lines.text ++ (if lines.broken then "\n" else "")
        ++ (if isEnd after.next && max indent 1 ≤ after.column then "\n" else "")
    let text := if chomp = .keep then text ++ lineFeeds lines.empty else text
    push p.mark (.scalar text false)

end Scan
end PipelineExpansion.Yaml
