/-!
# Cutting texts into pieces

Prefixes, separators and joints, on the characters of a text.
-/

namespace PipelineExpansion.Text

/-- What follows a prefix. -/
def after? : List Char → List Char → Option (List Char)
  | [], rest => some rest
  | _ :: _, [] => none
  | p :: ps, c :: cs => if p = c then after? ps cs else none

/-- The number of bytes that characters take. -/
def byteLength : List Char → Nat
  | [] => 0
  | c :: cs => c.utf8Size + byteLength cs

/-- What follows a prefix of a text. -/
def stripPrefix? (start s : String) : Option String :=
  (after? start.toList s.toList).map String.ofList

/-- What stands in front of a suffix of a text. -/
def stripSuffix? (ending s : String) : Option String :=
  (after? ending.toList.reverse s.toList.reverse).map (String.ofList ·.reverse)

/-- Cuts at the first place where a separator begins: what stands before it and what follows it. -/
def cut? (separator : List Char) : List Char → Option (List Char × List Char)
  | [] => if separator.isEmpty then some ([], []) else none
  | c :: cs =>
    match after? separator (c :: cs) with
    | some rest => some ([], rest)
    | none => (cut? separator cs).map fun (before, rest) => (c :: before, rest)

/-- Cuts a text at the first separator. -/
def splitOnce? (separator s : String) : Option (String × String) :=
  (cut? separator.toList s.toList).map fun (a, b) => (String.ofList a, String.ofList b)

/-- Cuts a text at the last character of a kind. -/
def splitLast? (separator : Char) (s : String) : Option (String × String) :=
  (cut? [separator] s.toList.reverse).map fun (b, a) =>
    (String.ofList a.reverse, String.ofList b.reverse)

/-- The pieces between the separators of a list of characters; there is always one more than separators. -/
def pieces (separator : Char) : List Char → List (List Char)
  | [] => [[]]
  | c :: cs =>
    if c = separator then [] :: pieces separator cs
    else
      match pieces separator cs with
      | [] => [[c]]
      | piece :: rest => (c :: piece) :: rest

/-- The pieces of a text between the separators. -/
def split (separator : Char) (s : String) : List String :=
  (pieces separator s.toList).map String.ofList

/-- A line without the carriage return at its end. -/
def withoutReturn (line : String) : String := (stripSuffix? "\r" line).getD line

/-- The lines of a text. Each ends with a line feed, which a carriage return may stand before; the last one
may lack it. -/
def lines (s : String) : List String :=
  match (split '\n' s).reverse with
  | [] => []
  | last :: ended => (ended.map withoutReturn).reverse ++ if last.isEmpty then [] else [last]

/-- Joins texts with a separator. -/
def join (separator : String) (texts : List String) : String := separator.intercalate texts

/-- Whether a text occurs within another. -/
def contains (s part : String) : Bool := (cut? part.toList s.toList).isSome

/-- Replaces the separators in a list of characters, from left to right. -/
def replaceAll (separator by' : List Char) : Nat → List Char → List Char
  | 0, cs => cs
  | n + 1, cs =>
    match cut? separator cs with
    | none => cs
    | some (before, rest) => before ++ by' ++ replaceAll separator by' n rest

/-- A text with every occurrence of a part replaced. -/
def replace (s part replacement : String) : String :=
  String.ofList (replaceAll part.toList replacement.toList (s.length + 1) s.toList)

end PipelineExpansion.Text
