import PipelineExpansion.Json
import PipelineExpansion.Yaml.Graph
import PipelineExpansion.Yaml.Event

/-!
# Trees to be written as YAML

A `Tree` is what a document is written from: texts, other scalars that are written plain, sequences and
mappings. A key is put once; a second value for it takes the place of the first.
-/

namespace PipelineExpansion.Yaml

/-- A document to be written. `plain` holds the text of a scalar that is no text: null, a truth value or a
number. -/
inductive Tree where
  | plain (text : String)
  | text (s : String)
  | sequence (items : List Tree)
  | mapping (entries : List (String × Tree))
deriving Repr, BEq, Inhabited

namespace Tree

/-- Null. -/
def null : Tree := .plain "null"

/-- A truth value. -/
def boolean (b : Bool) : Tree := .plain (if b then "true" else "false")

/-- A number as YAML writes it, with a sign only in front of exponents below zero. -/
def number (n : Binary64) : Tree :=
  .plain (match n with
    | .nan => ".nan"
    | .infinite negative => if negative then "-.inf" else ".inf"
    | .finite negative m e => Binary64.scientific false negative m e)

/-- Puts a value under a key: in place of the value that is there, or at the end. -/
def putEntry : List (String × Tree) → String → Tree → List (String × Tree)
  | [], key, value => [(key, value)]
  | (k, v) :: rest, key, value =>
    if k = key then (k, value) :: rest else (k, v) :: putEntry rest key value

/-- The mapping that some entries make one after another. -/
def ofEntries (entries : List (String × Tree)) : Tree :=
  .mapping (entries.foldl (fun es (k, v) => putEntry es k v) [])

/-- A mapping of texts. -/
def ofTexts (pairs : List (String × String)) : Tree :=
  ofEntries (pairs.map fun (k, v) => (k, .text v))

mutual

/-- A graph as a tree. -/
def ofGraph : Graph → Tree
  | .text s => .text s
  | .list items => .sequence (ofGraphs items)
  | .mapping entries => ofEntries (ofGraphEntries entries)

/-- Items as trees. -/
def ofGraphs : List Graph → List Tree
  | [] => []
  | g :: rest => ofGraph g :: ofGraphs rest

/-- Entries as trees. -/
def ofGraphEntries : List (String × Graph) → List (String × Tree)
  | [] => []
  | (k, g) :: rest => (k, ofGraph g) :: ofGraphEntries rest

end

mutual

/-- JSON as a tree. -/
def ofJson : Json → Tree
  | .null => null
  | .boolean b => boolean b
  | .whole n => .plain (toString n)
  | .number n => number n
  | .text s => .text s
  | .array items => .sequence (ofJsonItems items)
  | .object members => .mapping (ofJsonMembers members)

/-- Items as trees. -/
def ofJsonItems : List Json → List Tree
  | [] => []
  | v :: rest => ofJson v :: ofJsonItems rest

/-- Members as entries. -/
def ofJsonMembers : List (String × Json) → List (String × Tree)
  | [] => []
  | (k, v) :: rest => (k, ofJson v) :: ofJsonMembers rest

end

mutual

/-- The events that the text of a tree is read as. Texts are read as texts, whatever they look like. -/
def events : Tree → List Event
  | .plain s => [.scalar s true]
  | .text s => [.scalar s false]
  | .sequence items => .sequenceStart :: (itemEvents items ++ [.sequenceEnd])
  | .mapping entries => .mappingStart :: (entryEvents entries ++ [.mappingEnd])

/-- The events of items. -/
def itemEvents : List Tree → List Event
  | [] => []
  | t :: rest => t.events ++ itemEvents rest

/-- The events of entries. -/
def entryEvents : List (String × Tree) → List Event
  | [] => []
  | (k, t) :: rest => .scalar k false :: (t.events ++ entryEvents rest)

end

end Tree
end PipelineExpansion.Yaml
