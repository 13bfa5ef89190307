/-!
# Blanks

The white space of Unicode, and texts without the blanks around them.
-/

namespace PipelineExpansion.Text

/-- Whether a character has the Unicode property White_Space. -/
def isBlank (c : Char) : Bool :=
  ('\t' ≤ c && c ≤ '\r') || c = ' ' || c = '\x85' || c = '\u00a0' || c = '\u1680'
    || ('\u2000' ≤ c && c ≤ '\u200a') || c = '\u2028' || c = '\u2029' || c = '\u202f'
    || c = '\u205f' || c = '\u3000'

/-- The characters from the first that is no blank on. -/
def dropBlanks (cs : List Char) : List Char := cs.dropWhile isBlank

/-- The characters up to the last that is no blank. -/
def dropTrailingBlanks (cs : List Char) : List Char := (cs.reverse.dropWhile isBlank).reverse

/-- A text without the blanks in front of it. -/
def trimStart (s : String) : String := String.ofList (dropBlanks s.toList)

/-- A text without the blanks behind it. -/
def trimEnd (s : String) : String := String.ofList (dropTrailingBlanks s.toList)

/-- A text without the blanks around it. -/
def trim (s : String) : String := String.ofList (dropTrailingBlanks (dropBlanks s.toList))

end PipelineExpansion.Text
