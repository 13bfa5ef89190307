import PipelineExpansion.Number.Binary64

/-!
# Decimal texts of floating-point numbers

`Binary64.shortest` gives the fewest decimal digits that only one number is nearest to, and of those the
ones closest to that number. The layouts place the point: `positional` never uses an exponent,
`scientific` uses one outside a range.
-/

namespace PipelineExpansion
namespace Binary64

/-! ### Reading -/

/-- Reads digits, with at most one point among them: the digits, and how many of them follow the point. -/
def mantissa (cs : List Char) : Option (List Char × Nat × List Char) :=
  let whole := cs.takeWhile Char.isDigit
  let rest := cs.dropWhile Char.isDigit
  let (fraction, rest) :=
    match rest with
    | '.' :: rest => (rest.takeWhile Char.isDigit, rest.dropWhile Char.isDigit)
    | _ => ([], rest)
  if whole.isEmpty && fraction.isEmpty then none
  else some (whole ++ fraction, fraction.length, rest)

/-- The value of decimal digits. -/
def digitsValue (digits : List Char) : Nat :=
  digits.foldl (fun n d => n * 10 + (d.toNat - '0'.toNat)) 0

/-- Splits off a sign: whether it is a minus, and what follows. -/
def signed : List Char → Bool × List Char
  | '-' :: rest => (true, rest)
  | '+' :: rest => (false, rest)
  | rest => (false, rest)

/-- Reads an exponent of a decimal number up to the end of the text. -/
def exponent : List Char → Option Int
  | [] => some 0
  | c :: rest =>
    if c = 'e' || c = 'E' then
      let (negative, digits) := signed rest
      if digits.isEmpty || !digits.all Char.isDigit then none
      else
        let n : Int := digitsValue digits
        some (if negative then -n else n)
    else none

/-- Reads a number: an optional sign, then a decimal number with an optional exponent, or a word for
infinity or NaN in any case. -/
def ofString? (s : String) : Option Binary64 :=
  let (negative, body) := signed s.toList
  match String.ofList (body.map Char.toLower) with
  | "inf" | "infinity" => some (.infinite negative)
  | "nan" => some .nan
  | _ => do
    let (digits, places, rest) ← mantissa body
    let e ← exponent rest
    return ofDecimal negative (digitsValue digits) (e - places)

/-! ### Shortest digits -/

/-- What becomes of a number halfway between two decimals of the length sought. -/
inductive Tie where
  | up
  | even
deriving DecidableEq

/-- The decimal with `n` significant digits that is nearest to `num / den` among those strictly between two
bounds, or on them where they count: its digits as a whole number. `scale` is the power of ten of the last
digit; the bounds have the denominator `den` too. -/
private def gridPoint (tie : Tie) (closed : Bool) (num low high den : Nat) (scale : Int) : Option Nat :=
  let (num, low, high, den) : Nat × Nat × Nat × Nat :=
    match scale with
    | .ofNat k => (num, low, high, den * Nat.pow 10 k)
    | .negSucc k => (num * Nat.pow 10 (k + 1), low * Nat.pow 10 (k + 1), high * Nat.pow 10 (k + 1), den)
  let below := num / den
  let within (d : Nat) : Bool :=
    if closed then low ≤ d * den && d * den ≤ high else low < d * den && d * den < high
  let above := below + 1
  let r := num % den
  let downFirst : Bool :=
    2 * r < den || (2 * r = den && tie = .even && below % 2 = 0)
  match within below, within above with
  | true, true => some (if downFirst then below else above)
  | true, false => some below
  | false, true => some above
  | false, false => none

/-- The least number of decimal digits in front of the point of `num / den`, zero or below for small
fractions. -/
private def decimalMagnitude (num den : Nat) : Int :=
  let guess : Int := ((Nat.toDigits 10 num).length : Int) - (Nat.toDigits 10 den).length
  let reached : Bool :=
    match guess with
    | .ofNat k => den * Nat.pow 10 k ≤ num
    | .negSucc k => den ≤ num * Nat.pow 10 (k + 1)
  if reached then guess + 1 else guess

/-- Tries grids of more and more digits. -/
private def searchGrid (tie : Tie) (closed : Bool) (num low high den : Nat) (magnitude : Int) :
    Nat → Nat → Nat × Int
  | 0, n => (num / den, magnitude - n)
  | fuel + 1, n =>
    match gridPoint tie closed num low high den (magnitude - n) with
    | some d => (d, magnitude - n)
    | none => searchGrid tie closed num low high den magnitude fuel (n + 1)

/-- Removes the zeros at the end of a decimal. -/
private def stripZeros : Nat → Nat → Int → Nat × Int
  | 0, d, e => (d, e)
  | fuel + 1, d, e =>
    if d % 10 = 0 && d ≠ 0 then stripZeros fuel (d / 10) (e + 1) else (d, e)

/-- The shortest decimal `digits * 10 ^ exponent` that reads back as `significand * 2 ^ exponent`, for a
significand above zero. The numbers that read back lie halfway to the two neighbours, and on the halves
where the significand is even. -/
def shortest (tie : Tie) (significand : Nat) (exponent : Int) : Nat × Int :=
  let edge := significand = Nat.pow 2 52 && -1074 < exponent
  let (num, low, high) : Nat × Nat × Nat :=
    (4 * significand, if edge then 4 * significand - 1 else 4 * significand - 2, 4 * significand + 2)
  let (num, low, high, den) : Nat × Nat × Nat × Nat :=
    match exponent with
    | .ofNat k => (num * Nat.pow 2 k, low * Nat.pow 2 k, high * Nat.pow 2 k, 4)
    | .negSucc k => (num, low, high, 4 * Nat.pow 2 (k + 1))
  let (d, e) :=
    searchGrid tie (significand % 2 = 0) num low high den (decimalMagnitude num den) 18 1
  stripZeros 20 d e

/-! ### Layouts -/

/-- `n` zeros. -/
private def zeros (n : Nat) : String := String.ofList (List.replicate n '0')

/-- A decimal without an exponent. -/
private def point (digits : String) (exponent : Int) : String :=
  match exponent with
  | .ofNat k => digits ++ zeros k
  | .negSucc k =>
    let places := k + 1
    if digits.length ≤ places then "0." ++ zeros (places - digits.length) ++ digits
    else
      let cs := digits.toList
      String.ofList (cs.take (cs.length - places)) ++ "." ++
        String.ofList (cs.drop (cs.length - places))

/-- A minus for a negative number. -/
private def sign (negative : Bool) : String := if negative then "-" else ""

/-- The text of a number with all its places and no exponent. -/
def positional : Binary64 → String
  | .nan => "NaN"
  | .infinite negative => sign negative ++ "inf"
  | .finite negative 0 _ => sign negative ++ "0"
  | .finite negative (m + 1) e =>
    let (d, k) := shortest .up (m + 1) e
    sign negative ++ point (toString d) k

/-- The text of a finite number that shows a fraction even of a whole number, and that uses an exponent
below `10 ^ -5` and from `10 ^ 16` on. `plus` says whether an exponent above zero has a sign. -/
def scientific (plus : Bool) (negative : Bool) (significand : Nat) (exponent : Int) : String :=
  sign negative ++
    if significand = 0 then "0.0"
    else
      let (d, k) := shortest .even significand exponent
      let digits := toString d
      let magnitude : Int := digits.length + k
      if 0 ≤ k && magnitude ≤ 16 then point digits k ++ ".0"
      else if -5 < magnitude && magnitude ≤ 16 then point digits k
      else
        let cs := digits.toList
        let tail := if cs.length = 1 then "" else "." ++ String.ofList (cs.drop 1)
        String.ofList (cs.take 1) ++ tail ++ "e"
          ++ (if plus && 1 < magnitude then "+" else "") ++ toString (magnitude - 1)

end Binary64
end PipelineExpansion
