/-!
# Floating-point numbers of 64 bits

`Binary64` holds the numbers of the IEEE format of 64 bits in an exact form: a finite one is a significand
times a power of two. `Binary64.ofFraction` rounds a fraction to the nearest of them, the one with an even
significand of two equally near; products and quotients are fractions so rounded.
-/

namespace PipelineExpansion

/-- A number of 64 bits. A finite one stands for `significand * 2 ^ exponent`; the significand is below
`2 ^ 53`, the exponent is at least -1074, and the significand is at least `2 ^ 52` unless the exponent is
least. -/
inductive Binary64 where
  | nan
  | infinite (negative : Bool)
  | finite (negative : Bool) (significand : Nat) (exponent : Int)
deriving DecidableEq, Repr, Inhabited

namespace Binary64

/-- Zero, with a sign. -/
def zero (negative : Bool) : Binary64 := .finite negative 0 (-1074)

/-- The quotient of two numbers rounded to the nearest whole number, to an even one of two as near. -/
def divRound (num den : Nat) : Nat :=
  let q := num / den
  let r := num % den
  if 2 * r < den then q else if den < 2 * r then q + 1 else q + q % 2

/-- The fraction `num / den` divided by a power of two and rounded. -/
def scaled (num den : Nat) (exponent : Int) : Nat :=
  match exponent with
  | .ofNat k => divRound num (den * Nat.pow 2 k)
  | .negSucc k => divRound (num * Nat.pow 2 (k + 1)) den

/-- Whether `num / den` is at least `2 ^ k`. -/
def reaches (num den : Nat) (k : Int) : Bool :=
  match k with
  | .ofNat k => den * Nat.pow 2 k ≤ num
  | .negSucc k => den ≤ num * Nat.pow 2 (k + 1)

/-- The number nearest to a fraction; beyond the largest finite one it is infinite. -/
def ofFraction (negative : Bool) (num den : Nat) : Binary64 :=
  if num = 0 || den = 0 then zero negative
  else
    let guess : Int := (num.log2 : Int) - den.log2
    let magnitude := if reaches num den guess then guess else guess - 1
    let exponent := max (magnitude - 52) (-1074)
    let significand := scaled num den exponent
    let (significand, exponent) :=
      if significand = Nat.pow 2 53 then (Nat.pow 2 52, exponent + 1) else (significand, exponent)
    if 971 < exponent then .infinite negative else .finite negative significand exponent

/-- The number nearest to a whole number. -/
def ofInt (n : Int) : Binary64 := ofFraction (n < 0) n.natAbs 1

/-- The number nearest to `digits * 10 ^ exponent`. -/
def ofDecimal (negative : Bool) (digits : Nat) (exponent : Int) : Binary64 :=
  let width : Int := (Nat.toDigits 10 digits).length + exponent
  if digits = 0 || width < -330 then zero negative
  else if 320 < width then .infinite negative
  else
    match exponent with
    | .ofNat k => ofFraction negative (digits * Nat.pow 10 k) 1
    | .negSucc k => ofFraction negative digits (Nat.pow 10 (k + 1))

/-- Whether a number is finite. -/
def isFinite : Binary64 → Bool
  | .finite .. => true
  | _ => false

/-- Whether a number is zero, of either sign. -/
def isZero : Binary64 → Bool
  | .finite _ 0 _ => true
  | _ => false

/-- Whether a number has a minus. -/
def isNegative : Binary64 → Bool
  | .nan => false
  | .infinite negative => negative
  | .finite negative _ _ => negative

/-- The fraction `significand * 2 ^ exponent`. -/
private def fractionOf (significand : Nat) (exponent : Int) : Nat × Nat :=
  match exponent with
  | .ofNat k => (significand * Nat.pow 2 k, 1)
  | .negSucc k => (significand, Nat.pow 2 (k + 1))

/-- The number nearest to a product. -/
def product (a b : Binary64) : Binary64 :=
  let negative := a.isNegative != b.isNegative
  match a, b with
  | .finite _ m p, .finite _ n q =>
    let (x, y) := (fractionOf m p, fractionOf n q)
    ofFraction negative (x.1 * y.1) (x.2 * y.2)
  | .nan, _ => .nan
  | _, .nan => .nan
  | a, b => if a.isZero || b.isZero then .nan else .infinite negative

/-- The number nearest to a quotient. -/
def quotient (a b : Binary64) : Binary64 :=
  let negative := a.isNegative != b.isNegative
  match a, b with
  | .finite _ m p, .finite _ n q =>
    if n = 0 then if m = 0 then .nan else .infinite negative
    else
      let (x, y) := (fractionOf m p, fractionOf n q)
      ofFraction negative (x.1 * y.2) (x.2 * y.1)
  | .nan, _ => .nan
  | _, .nan => .nan
  | .infinite _, .infinite _ => .nan
  | .infinite _, _ => .infinite negative
  | _, .infinite _ => zero negative

/-- A number with the other sign. -/
def negate : Binary64 → Binary64
  | .nan => .nan
  | .infinite negative => .infinite !negative
  | .finite negative significand exponent => .finite (!negative) significand exponent

/-- The whole number a finite number has when its fraction is dropped. -/
def truncate (negative : Bool) (significand : Nat) (exponent : Int) : Int :=
  let magnitude : Nat :=
    match exponent with
    | .ofNat k => significand * Nat.pow 2 k
    | .negSucc k => significand / Nat.pow 2 (k + 1)
  if negative then -(magnitude : Int) else magnitude

/-- The whole number that a number without a fraction stands for. -/
def toInt? : Binary64 → Option Int
  | .finite negative significand exponent =>
    match exponent with
    | .ofNat _ => some (truncate negative significand exponent)
    | .negSucc k =>
      if significand % Nat.pow 2 (k + 1) = 0 then some (truncate negative significand exponent) else none
  | _ => none

/-- The whole number nearest to a number within bounds: its fraction is dropped, what lies outside goes to
the bound, and NaN is zero. -/
def saturate (low high : Int) : Binary64 → Int
  | .nan => 0
  | .infinite negative => if negative then low else high
  | .finite negative significand exponent =>
    max low (min high (truncate negative significand exponent))

/-- The order of two fractions with powers of two as denominators. -/
private def compareScaled (m : Int) (p : Int) (n : Int) (q : Int) : Ordering :=
  let least := min p q
  compare (m * Nat.pow 2 (p - least).toNat) (n * Nat.pow 2 (q - least).toNat)

/-- The order of two numbers; NaN is in none. The zeros of either sign are equal. -/
def order : Binary64 → Binary64 → Option Ordering
  | .nan, _ => none
  | _, .nan => none
  | .infinite a, .infinite b => some (if a = b then .eq else if a then .lt else .gt)
  | .infinite a, .finite .. => some (if a then .lt else .gt)
  | .finite .., .infinite b => some (if b then .gt else .lt)
  | .finite s m p, .finite t n q =>
    some (compareScaled (if s then -(m : Int) else m) p (if t then -(n : Int) else n) q)

/-- Whether two numbers are equal: NaN is not, even to itself, and zeros are, whatever their signs. -/
def same (a b : Binary64) : Bool := order a b = some .eq

end Binary64

end PipelineExpansion
