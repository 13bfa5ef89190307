import PipelineExpansion.Yaml.Token.State

/-!
# Directives, tags and anchors

Tags do not change how a document is read here, but they have to be well formed, and a node may consist
of a tag or an anchor alone. Of a tag only its handle is kept, since an undeclared handle is a fault.
-/

namespace PipelineExpansion.Yaml
namespace Scan

/-- The length of a UTF-8 sequence, told by its first byte. -/
private def sequenceLength (byte : Nat) : Option Nat :=
  if byte < 0x80 then some 1
  else if byte / 0x20 = 0x6 then some 2
  else if byte / 0x10 = 0xE then some 3
  else if byte / 0x08 = 0x1E then some 4
  else none

/-- Reads `%` and two hexadecimal digits. -/
private def escapedByte (start : Mark) : Scan Nat := do
  let p ← place
  if p.next = '%' && isHexDigit (p.peek 1) && isHexDigit (p.peek 2) then
    move (·.skip 3)
    return hexValue (p.peek 1) * 16 + hexValue (p.peek 2)
  else failAt start .tagEscape

/-- Reads the escaped bytes that follow the first one of a character; the bytes, one after another, make
the number of the character. -/
private def escapedTail (start : Mark) : Nat → Nat → Scan Nat
  | 0, code => pure code
  | n + 1, code => do
    let byte ← escapedByte start
    if byte / 0x40 = 2 then escapedTail start n (code * 256 + byte)
    else failAt start .tagTrailingByte

/-- Reads one escaped character of a tag. -/
private def escapedChar (start : Mark) : Scan Char := do
  let byte ← escapedByte start
  match sequenceLength byte with
  | none => failAt start .tagLeadingByte
  | some n =>
    let code ← escapedTail start (n - 1) byte
    if code.isValidChar then return Char.ofNat code else failAt start .tagCodePoint

/-- Reads the longest run of characters of a class, with escapes resolved. -/
private def addressRun (start : Mark) (inClass : Char → Bool) : Scan String :=
  loop "" fun text => do
    let c ← next
    if inClass c then
      if c = '%' then return (text.push (← escapedChar start), true)
      else
        move (·.skip 1)
        return (text.push c, true)
    else return (text, false)

/-- Reads a tag's handle: `!`, letters, and `!` again where the tag has a named handle. -/
private def handle (directive : Bool) (start : Mark) : Scan String := do
  unless (← next) = '!' do failAt start .tagBang
  move (·.skip 1)
  let name ← takeRun isWordOrLine
  if (← next) = '!' then
    move (·.skip 1)
    return "!" ++ name ++ "!"
  else if directive && !name.isEmpty then failAt start .tagDirectiveBang
  else return "!" ++ name

/-- Whether a handle is named, that is, has an exclamation mark at both ends. -/
def isNamedHandle (handle : String) : Bool :=
  2 ≤ handle.length && handle.startsWith "!" && handle.endsWith "!"

/-- Reads the address of a tag in angle brackets. -/
private def verbatim (start : Mark) : Scan Unit := do
  move (·.skip 2)
  let _ ← addressRun start isAddressChar
  unless (← next) = '>' do failAt start .tagVerbatimClose
  move (·.skip 1)

/-- Reads a tag and gives its handle. -/
private def tagHandle (start : Mark) : Scan String := do
  if (← place).peek 1 = '<' then
    verbatim start
    return ""
  else
    let handle ← handle false start
    let suffix ← addressRun start isShorthandChar
    if isNamedHandle handle then
      if suffix.isEmpty then failAt start .tagAddress
      return handle
    else
      return if handle.length ≤ 1 && suffix.isEmpty then "" else "!"

/-- Adds a tag. -/
def tag : Scan Unit := do
  saveCandidate
  allowKey false
  let start := (← place).mark
  let handle ← tagHandle start
  let c ← next
  if isSeparator c || ((← inFlow) && isFlowIndicator c) then push start (.tag handle)
  else failAt start .tagTail

/-- Adds an anchor, or a reference to one. -/
def anchor (isReference : Bool) : Scan Unit := do
  saveCandidate
  allowKey false
  let start := (← place).mark
  move (·.skip 1)
  let name ← takeRun isAnchorChar
  if name.isEmpty then failAt start .anchorName
  push start (if isReference then .reference name else .anchor name)

/-! ### Directives -/

/-- Reads a number of a version, of at most nine digits. -/
private def versionNumber (start : Mark) : Scan Unit := do
  let digits ← takeRun Char.isDigit
  if 9 < digits.length then failAt start .versionLong
  if digits.isEmpty then failAt start .versionMissing

/-- Reads over spaces and tabs. -/
private def skipBlanks : Scan Unit :=
  loop () fun _ => do
    if isGap (← next) then
      move .skipGap
      return ((), true)
    else return ((), false)

/-- Reads the value of a version directive. -/
private def version (start : Mark) : Scan TokenKind := do
  skipBlanks
  versionNumber start
  unless (← next) = '.' do failAt start .versionPoint
  move (·.skip 1)
  versionNumber start
  return .versionDirective

/-- Reads the address that a tag directive gives a handle. -/
private def tagAddress (start : Mark) : Scan Unit := do
  let c ← next
  if c = '!' then move (·.skip 1)
  else if !isShorthandChar c then failAt start .tagStart
  else if c = '%' then
    let _ ← escapedChar start
  else move (·.skip 1)
  let _ ← addressRun start isAddressChar

/-- Reads the value of a tag directive. -/
private def tagValue (start : Mark) : Scan TokenKind := do
  skipBlanks
  let handle ← handle true start
  skipBlanks
  tagAddress start
  if isSeparator (← next) then return .tagDirective handle
  else failAt start .tagDirectiveTail

/-- Adds a directive. One that is not known is read over and counts as a tag directive without a handle. -/
def directive : Scan Unit := do
  closeBlocks (-1)
  dropCandidate
  allowKey false
  let start := (← place).mark
  move (·.skip 1)
  let nameStart := (← place).mark
  let name ← takeRun isWordOrLine
  if name.isEmpty then failAt nameStart .directiveName
  unless isSeparator (← next) do failAt nameStart .directiveNameCharacter
  let kind ←
    if name = "YAML" then version start
    else if name = "TAG" then tagValue start
    else do
      move .skipLine
      pure (.tagDirective "")
  let _ ← skipGaps true
  if isBreakOrEnd (← next) then
    move .lineBreak
    push start kind
  else failAt start .directiveTail

end Scan
end PipelineExpansion.Yaml
