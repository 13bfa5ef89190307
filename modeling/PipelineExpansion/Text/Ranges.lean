/-!
# Ranges of character numbers

Unicode properties are given as ascending lists of ranges, both ends included. A lookup stops at the first
range that starts beyond the number sought. Most case mappings move a character by a fixed distance, and
neighbours by the same one: a `CaseRun` says so for every character, or every second one, of a range.
-/

namespace PipelineExpansion.Text

/-! ### Properties -/

/-- Ascending ranges of character numbers, both ends included. -/
abbrev Ranges := List (Nat × Nat)

/-- Whether a number lies in one of the ranges. -/
def Ranges.has : Ranges → Nat → Bool
  | [], _ => false
  | (first, last) :: rest, n =>
    if n < first then false else if n ≤ last then true else Ranges.has rest n

/-! ### Case mappings -/

/-- The characters `first, first + step, …, last`, each moved by `shift`. -/
structure CaseRun where
  first : Nat
  last : Nat
  step : Nat
  shift : Int

/-- The character that the runs, which ascend by their first character, move a number to. -/
def CaseRun.find? : List CaseRun → Nat → Option Char
  | [], _ => none
  | run :: rest, n =>
    if n < run.first then none
    else if n ≤ run.last && (n - run.first) % run.step = 0 then
      some (Char.ofNat ((n : Int) + run.shift).toNat)
    else find? rest n

end PipelineExpansion.Text
