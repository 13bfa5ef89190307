import PipelineExpansion.Diagnostic
import PipelineExpansion.Text.Blank

/-!
# Patterns of paths and branches

A pattern matches a whole path. `*` and `?` stay within a segment, `**` crosses slashes but no line break,
`**/` may match no directory at all, and `/**` at the end matches the directory itself too. A class in
brackets matches one of its characters.

The body of a class lists characters and ranges; `!` at its start negates it. Lists may be combined by
`&&` (in both), `--` (in the first only) and `~~` (in exactly one), from left to right. Hyphens at the start
of the body, and one at its end, stand for themselves.
-/

namespace PipelineExpansion.Glob

/-! ### Classes of characters -/

/-- How two lists of characters are combined. -/
inductive Combination where
  | both
  | firstOnly
  | oneOnly
deriving DecidableEq, Repr

/-- Whether a character is in a combination, given whether it is in either part. -/
def Combination.holds : Combination → Bool → Bool → Bool
  | both, a, b => a && b
  | firstOnly, a, b => a && !b
  | oneOnly, a, b => a != b

/-- Characters and ranges; a character is a range of its own. -/
abbrev CharRanges := List (Char × Char)

/-- A class of characters: a list, and further lists combined with it one after another. -/
structure CharClass where
  negated : Bool
  first : CharRanges
  more : List (Combination × CharRanges)
deriving DecidableEq, Repr

/-- Whether a character lies in one of the ranges. -/
def CharRanges.has (ranges : CharRanges) (c : Char) : Bool :=
  ranges.any fun (low, high) => low ≤ c && c ≤ high

/-- Whether a character is in a class. -/
def CharClass.has (k : CharClass) (c : Char) : Bool :=
  (k.more.foldl (fun found (op, ranges) => op.holds found (CharRanges.has ranges c))
    (CharRanges.has k.first c)) != k.negated

/-- Reads lists and combinations; `current` is the list being read, last range first. A range from a
greater to a smaller character is refused. -/
def readRanges (current : CharRanges) :
    List Char → Option (CharRanges × List (Combination × CharRanges))
  | [] => some (current.reverse, [])
  | '&' :: '&' :: rest => combine .both (readRanges [] rest)
  | '-' :: '-' :: rest => combine .firstOnly (readRanges [] rest)
  | '~' :: '~' :: rest => combine .oneOnly (readRanges [] rest)
  | a :: rest@('-' :: '-' :: _) => readRanges ((a, a) :: current) rest
  | a :: '-' :: c :: rest => if a ≤ c then readRanges ((a, c) :: current) rest else none
  | a :: rest => readRanges ((a, a) :: current) rest
where
  /-- Ends the list being read and combines it with those behind it. -/
  combine (op : Combination)
      (rest : Option (CharRanges × List (Combination × CharRanges))) :
      Option (CharRanges × List (Combination × CharRanges)) :=
    rest.map fun (next, more) => (current.reverse, (op, next) :: more)

/-- The class that a body describes; an empty body describes none. -/
def CharClass.ofBody? (body : List Char) : Option CharClass :=
  let negated := body.head? = some '!'
  let listed := if negated then body.drop 1 else body
  if listed.isEmpty then none
  else
    let hyphens := (listed.takeWhile (· = '-')).map fun c => (c, c)
    match readRanges hyphens (listed.dropWhile (· = '-')) with
    | some (first, more) => some ⟨negated, first, more⟩
    | none => none

/-! ### Patterns -/

/-- A part of a pattern. -/
inductive Part where
  | char (c : Char)
  | anyChar
  | anySegment
  | anyPath
  | directories
  | subtree
  | oneOf (body : List Char)
deriving DecidableEq, Repr

/-- Why a text is no pattern. -/
inductive PatternFault where
  | unterminatedClass
  | malformedClass
deriving DecidableEq, Repr

/-- The wording of a fault. -/
def PatternFault.message : PatternFault → String
  | unterminatedClass => "unterminated character class"
  | malformedClass => "regex parse error"

/-- The parts of a pattern; inside a class, `body` holds what was read of it, the last character first. -/
def partsOf (body : Option (List Char)) : List Char → Option (List Part)
  | [] => if body.isNone then some [] else none
  | c :: rest =>
    match body with
    | some read =>
      if c = ']' then (partsOf none rest).map (.oneOf read.reverse :: ·)
      else partsOf (some (c :: read)) rest
    | none =>
      match c, rest with
      | '/', ['*', '*'] => some [.subtree]
      | '*', '*' :: '/' :: rest => (partsOf none rest).map (.directories :: ·)
      | '*', '*' :: rest => (partsOf none rest).map (.anyPath :: ·)
      | '*', rest => (partsOf none rest).map (.anySegment :: ·)
      | '?', rest => (partsOf none rest).map (.anyChar :: ·)
      | '[', rest => partsOf (some []) rest
      | c, rest => (partsOf none rest).map (.char c :: ·)

/-- Whether a part can be matched: the body of a class has to describe one. -/
def Part.isWellFormed : Part → Bool
  | oneOf body => (CharClass.ofBody? body).isSome
  | _ => true

/-- A pattern: its text and its parts. -/
structure Pattern where
  source : String
  parts : List Part
deriving DecidableEq, Repr

/-- The pattern of a text. -/
def Pattern.ofString? (source : String) : Except PatternFault Pattern :=
  match partsOf none source.toList with
  | none => .error .unterminatedClass
  | some parts =>
    if parts.all Part.isWellFormed then .ok ⟨source, parts⟩ else .error .malformedClass

/-- The pattern of a text, with a diagnostic for one that is none. -/
def Pattern.compile (source : String) : Except Diagnostic Pattern :=
  (Pattern.ofString? source).mapError fun fault =>
    .meaning ("Invalid pattern '" ++ source ++ "': " ++ fault.message)

/-- Whether some suffix of a text, behind characters of a class only, satisfies a test. -/
def anyBehind (inClass : Char → Bool) (test : List Char → Bool) : List Char → Bool
  | [] => test []
  | c :: rest => test (c :: rest) || (inClass c && anyBehind inClass test rest)

/-- Whether some suffix of a text that begins behind a slash, with no line break before it, satisfies a
test. -/
def anyBehindSlash (test : List Char → Bool) : List Char → Bool
  | [] => false
  | c :: rest => c ≠ '\n' && ((c = '/' && test rest) || anyBehindSlash test rest)

/-- Whether parts match a text as a whole. -/
def matchParts : List Part → List Char → Bool
  | [], cs => cs.isEmpty
  | .char c :: parts, cs =>
    match cs with
    | d :: rest => c = d && matchParts parts rest
    | [] => false
  | .anyChar :: parts, cs =>
    match cs with
    | d :: rest => d ≠ '/' && matchParts parts rest
    | [] => false
  | .oneOf body :: parts, cs =>
    match cs with
    | d :: rest => (CharClass.ofBody? body).any (·.has d) && matchParts parts rest
    | [] => false
  | .anySegment :: parts, cs => anyBehind (· ≠ '/') (matchParts parts) cs
  | .anyPath :: parts, cs => anyBehind (· ≠ '\n') (matchParts parts) cs
  | .directories :: parts, cs => matchParts parts cs || anyBehindSlash (matchParts parts) cs
  | .subtree :: parts, cs =>
    matchParts parts cs ||
      match cs with
      | '/' :: rest => anyBehind (· ≠ '\n') (matchParts parts) rest
      | _ => false

/-- Whether a pattern matches a path. -/
def Pattern.isMatch (p : Pattern) (path : String) : Bool := matchParts p.parts path.toList

/-- Patterns to include and to exclude. -/
structure PatternSet where
  includes : List Pattern
  excludes : List Pattern
deriving DecidableEq, Repr

/-- The pattern set of some entries; those with `!` in front exclude. -/
def PatternSet.compile : List String → Except Diagnostic PatternSet
  | [] => .ok ⟨[], []⟩
  | entry :: rest => do
    match (Text.trim entry).toList with
    | '!' :: pattern =>
      let p ← Pattern.compile (String.ofList pattern)
      let set ← PatternSet.compile rest
      return { set with excludes := p :: set.excludes }
    | pattern =>
      let p ← Pattern.compile (String.ofList pattern)
      let set ← PatternSet.compile rest
      return { set with includes := p :: set.includes }

/-- Whether a set has no patterns. -/
def PatternSet.isEmpty (s : PatternSet) : Bool := s.includes.isEmpty && s.excludes.isEmpty

/-- Whether a path is included, by one of the patterns or because there are none, and not excluded. -/
def PatternSet.admits (s : PatternSet) (path : String) : Bool :=
  (s.includes.isEmpty || s.includes.any (·.isMatch path)) && !s.excludes.any (·.isMatch path)

end PipelineExpansion.Glob
