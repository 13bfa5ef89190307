import PipelineExpansion.Yaml.Mark

/-!
# Places in a text

The grammar tells characters apart by a handful of classes. The character NUL stands for the end of the
text: a document that contains one ends there.

A `Place` is the part of a text that is still to be read, together with the position it starts at. The
reading steps keep the position in step with the text: a line break moves to the next line, every other
character to the next column.
-/

namespace PipelineExpansion.Yaml

/-! ### Classes of characters -/

/-- The end of the text. -/
def isEnd (c : Char) : Bool := c = '\x00'

/-- A line break. -/
def isBreak (c : Char) : Bool := c = '\n' || c = '\r'

/-- A space or a tab. -/
def isGap (c : Char) : Bool := c = ' ' || c = '\t'

/-- A line break or the end of the text. -/
def isBreakOrEnd (c : Char) : Bool := isBreak c || isEnd c

/-- A character that separates tokens: a gap, a line break or the end of the text. -/
def isSeparator (c : Char) : Bool := isGap c || isBreakOrEnd c

/-- An indicator of a flow collection. -/
def isFlowIndicator (c : Char) : Bool := [',', '[', ']', '\x7b', '\x7d'].contains c

/-- A letter, a digit, a hyphen or an underscore of ASCII. -/
def isWordOrLine (c : Char) : Bool := c.isAlphanum || c = '_' || c = '-'

/-- A hexadecimal digit. -/
def isHexDigit (c : Char) : Bool :=
  c.isDigit || ('a' ≤ c && c ≤ 'f') || ('A' ≤ c && c ≤ 'F')

/-- The value of a hexadecimal digit. -/
def hexValue (c : Char) : Nat :=
  if c.isDigit then c.toNat - '0'.toNat
  else if 'a' ≤ c && c ≤ 'f' then c.toNat - 'a'.toNat + 10
  else c.toNat - 'A'.toNat + 10

/-- A character of an anchor's name: no separator, no flow indicator and no byte order mark. -/
def isAnchorChar (c : Char) : Bool :=
  !isSeparator c && c ≠ '\ufeff' && !isFlowIndicator c

/-- A character of a tag's address. -/
def isAddressChar (c : Char) : Bool :=
  (isWordOrLine c && c ≠ '_') || "#;/?:@&=+$,_.!~*'()[]%".toList.contains c

/-- A character of a tag's shorthand: one of an address that is neither a flow indicator nor `!`. -/
def isShorthandChar (c : Char) : Bool := isAddressChar c && !isFlowIndicator c && c ≠ '!'

/-! ### Places -/

/-- What is left of a text and where it starts. `column` counts from zero; `fresh` says that the line has
held only blanks so far. -/
structure Place where
  rest : List Char
  index : Nat
  line : Nat
  column : Nat
  fresh : Bool

namespace Place

/-- The start of a text. -/
def ofString (text : String) : Place := ⟨text.toList, 0, 1, 0, true⟩

/-- The position of a place, with the column counted from one. -/
def mark (p : Place) : Mark := ⟨p.line, p.column + 1⟩

/-- The character `n` places ahead, the end of the text beyond the last one. -/
def peek (p : Place) (n : Nat) : Char := p.rest.getD n '\x00'

/-- The next character. -/
def next (p : Place) : Char := p.peek 0

/-- Reads over a character without ending the blank start of a line. -/
def skipGap (p : Place) : Place :=
  { p with rest := p.rest.drop 1, index := p.index + 1, column := p.column + 1 }

/-- Reads over `n` characters of content. -/
def skip (p : Place) (n : Nat) : Place :=
  { p with rest := p.rest.drop n, index := p.index + n, column := p.column + n, fresh := false }

/-- Reads over a character that ends a line. -/
def newline (p : Place) : Place :=
  { p with rest := p.rest.drop 1, index := p.index + 1, line := p.line + 1, column := 0, fresh := true }

/-- Reads over a line break, which a carriage return and a line feed make together. -/
def lineBreak (p : Place) : Place :=
  if p.next = '\r' && p.peek 1 = '\n' then p.skipGap.newline
  else if isBreak p.next then p.newline
  else p

/-- Reads the longest run of characters of a class as content of the line. -/
def spanOf (p : Place) (inClass : Char → Bool) : List Char × Place :=
  let run := p.rest.takeWhile inClass
  (run, if run.isEmpty then p else p.skip run.length)

/-- Reads over the rest of the line, up to its break. -/
def skipLine (p : Place) : Place :=
  (p.spanOf fun c => !isBreakOrEnd c).2

/-- Whether a document marker made of three `c` stands here. -/
def isMarker (p : Place) (c : Char) : Bool :=
  p.next = c && p.peek 1 = c && p.peek 2 = c && isSeparator (p.peek 3)

/-- Whether the start or the end of a document is marked here. -/
def isDocumentMarker (p : Place) : Bool := p.isMarker '-' || p.isMarker '.'

end Place

end PipelineExpansion.Yaml
