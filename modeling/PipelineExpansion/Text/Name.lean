/-!
# Names without regard to ASCII case

Names of stages, jobs, variables, inputs and properties are compared without regard to the case of ASCII
letters; all other characters stand for themselves. A fresh name is a word, or the word with the least number
from 2 on behind it, that is not in use.
-/

namespace PipelineExpansion.Text

/-! ### Case -/

/-- A text with its ASCII capitals made small. -/
def fold (s : String) : String := String.ofList (s.toList.map Char.toLower)

/-- Whether two texts are equal up to the case of ASCII letters. -/
def sameName (a b : String) : Bool := fold a = fold b

/-- A text with its small ASCII letters made capitals. -/
def capitals (s : String) : String := String.ofList (s.toList.map Char.toUpper)

/-! ### Fresh names -/

/-- The names that are tried, from the first on. -/
def candidate (word : String) (attempt : Nat) : String :=
  if attempt = 0 then word else word ++ toString (attempt + 1)

/-- The first candidate that is not in use. `used` holds folded names; of one candidate more than there
are names in use, one is free. -/
def freshName (word : String) (used : List String) : String :=
  (((List.range (used.length + 1)).map (candidate word)).find? fun name =>
    !used.contains (fold name)).getD word

end PipelineExpansion.Text
