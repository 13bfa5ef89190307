import PipelineExpansion.Dictionary
import PipelineExpansion.Number.Decimal

/-!
# JSON values and their text

Objects keep the order of their members; those built from templates have them in ascending order. There
are two layouts: `compact` has no blanks, `pretty` has one member or item a line.
-/

namespace PipelineExpansion

/-- A JSON value. Whole numbers and others are told apart, since they are written differently. -/
inductive Json where
  | null
  | boolean (b : Bool)
  | whole (n : Int)
  | number (n : Binary64)
  | text (s : String)
  | array (items : List Json)
  | object (members : List (String × Json))
deriving Repr, Inhabited

namespace Json

/-- A hexadecimal digit. -/
private def hexDigit (n : Nat) : Char := (Nat.digitChar n)

/-- A character within quotes. -/
def escape (c : Char) : List Char :=
  if c = '"' then ['\\', '"']
  else if c = '\\' then ['\\', '\\']
  else if c = '\n' then ['\\', 'n']
  else if c = '\r' then ['\\', 'r']
  else if c = '\t' then ['\\', 't']
  else if c = '\x08' then ['\\', 'b']
  else if c = '\x0c' then ['\\', 'f']
  else if c.toNat < 0x20 then
    ['\\', 'u', '0', '0', hexDigit (c.toNat / 16), hexDigit (c.toNat % 16)]
  else [c]

/-- A text in quotes. -/
def quote (s : String) : String := "\"" ++ String.ofList (s.toList.flatMap escape) ++ "\""

/-- The text of a number, with a sign in front of every exponent; infinity and NaN have none. -/
def numberText : Binary64 → String
  | .finite negative significand exponent => Binary64.scientific true negative significand exponent
  | _ => "null"

mutual

/-- The text of a value without blanks. -/
def compact : Json → String
  | null => "null"
  | boolean b => if b then "true" else "false"
  | whole n => toString n
  | number n => numberText n
  | text s => quote s
  | array items => "[" ++ ",".intercalate (compactItems items) ++ "]"
  | object members => "\x7b" ++ ",".intercalate (compactMembers members) ++ "\x7d"

/-- The texts of items without blanks. -/
def compactItems : List Json → List String
  | [] => []
  | item :: rest => compact item :: compactItems rest

/-- The texts of members without blanks. -/
def compactMembers : List (String × Json) → List String
  | [] => []
  | (key, value) :: rest => (quote key ++ ":" ++ compact value) :: compactMembers rest

end

/-- A line break and the indentation of a depth. -/
private def newLine (depth : Nat) : String := "\n" ++ String.ofList (List.replicate (2 * depth) ' ')

mutual

/-- The text of a value with one member or item a line, within `depth` collections. -/
def prettyAt (depth : Nat) : Json → String
  | array [] => "[]"
  | array items =>
    "[" ++ ",".intercalate (prettyItems (depth + 1) items) ++ newLine depth ++ "]"
  | object [] => "\x7b\x7d"
  | object members =>
    "\x7b" ++ ",".intercalate (prettyMembers (depth + 1) members) ++ newLine depth ++ "\x7d"
  | null => "null"
  | boolean b => if b then "true" else "false"
  | whole n => toString n
  | number n => numberText n
  | text s => quote s

/-- The items of an array, each on a line. -/
def prettyItems (depth : Nat) : List Json → List String
  | [] => []
  | item :: rest => (newLine depth ++ prettyAt depth item) :: prettyItems depth rest

/-- The members of an object, each on a line. -/
def prettyMembers (depth : Nat) : List (String × Json) → List String
  | [] => []
  | (key, value) :: rest =>
    (newLine depth ++ quote key ++ ": " ++ prettyAt depth value) :: prettyMembers depth rest

end

/-- The text of a value with one member or item a line. -/
def pretty (v : Json) : String := prettyAt 0 v

end Json
end PipelineExpansion
