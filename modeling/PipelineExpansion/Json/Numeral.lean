import PipelineExpansion.Json

/-!
# Numerals

A number as it is written in JSON, and its value. The digits go into a significand of 64 bits as long as
they fit, and the significand is multiplied with, or divided by, a power of ten in floating point. So the
value of a long numeral need not be the nearest number.
-/

namespace PipelineExpansion.Json

/-- The parts of a numeral. The exponent comes with its sign, true for a minus; a numeral that is `whole` has
neither a point nor an exponent. -/
structure Numeral where
  negative : Bool
  digits : List Char
  fraction : List Char
  exponent : Bool × List Char
  isWhole : Bool

namespace Numeral

/-- Appends digits to a number as long as it stays below a bound: the number, and the digits left over. -/
def gather (bound : Nat) (n : Nat) : List Char → Nat × List Char
  | [] => (n, [])
  | c :: rest =>
    let m := n * 10 + (c.toNat - '0'.toNat)
    if m < bound then gather bound m rest else (n, c :: rest)

/-- The significand, and the power of ten it is to be multiplied with but for the exponent. Digits in front of
the point that do not fit count in the power; those behind it have no effect. -/
def significand (n : Numeral) : Nat × Int :=
  let (s, beyond) := gather (Nat.pow 2 64) 0 n.digits
  let (t, dropped) := gather (Nat.pow 2 64) s n.fraction
  (t, (beyond.length : Int) - ((n.fraction.length : Int) - dropped.length))

/-- The exponent, unless its digits go beyond 31 bits, and the digits that follow the one which does. -/
def exponentValue (n : Numeral) : Option Int × Nat :=
  let (minus, digits) := n.exponent
  match gather (Nat.pow 2 31) 0 digits with
  | (e, []) => (some (if minus then -(e : Int) else e), 0)
  | (_, _ :: rest) => (none, rest.length)

/-- A power of ten, rounded. -/
private def powerOfTen (k : Nat) : Binary64 := .ofFraction false (Nat.pow 10 k) 1

/-- A number times a power of ten, in as many roundings as there are factors of at most `10 ^ 308`; the third
leaves nothing of a significand. -/
def scale (n : Binary64) (exponent : Int) : Binary64 :=
  if n.isZero then n
  else if 308 < exponent then .infinite false
  else if 0 ≤ exponent then n.product (powerOfTen exponent.toNat)
  else if -308 ≤ exponent then n.quotient (powerOfTen (-exponent).toNat)
  else if -616 ≤ exponent then
    (n.quotient (powerOfTen 308)).quotient (powerOfTen (-exponent - 308).toNat)
  else .zero false

/-- The value of a numeral; none for one out of range. Whole numbers of 64 bits, with a sign or without, keep
every digit. -/
def value? (n : Numeral) : Option Json :=
  let (s, power) := n.significand
  let fits : Bool := if n.negative then 0 < s && s ≤ Nat.pow 2 63 else true
  if n.isWhole && power = 0 && fits then some (.whole (if n.negative then -(s : Int) else s))
  else
    let magnitude : Binary64 :=
      match n.exponentValue.1 with
      | some e => scale (.ofInt s) (power + e)
      | none => if s = 0 || n.exponent.1 then .zero false else .infinite false
    match magnitude with
    | .infinite _ => none
    | m => some (.number (if n.negative then m.negate else m))

/-- The number of digits behind the place where it shows that a numeral is out of range. -/
def unread (n : Numeral) : Nat := n.exponentValue.2

end Numeral

end PipelineExpansion.Json
