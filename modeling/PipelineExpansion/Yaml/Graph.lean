import PipelineExpansion.Dictionary
import PipelineExpansion.Json

/-!
# Graphs of texts

The values of a process document that no rule describes further: texts, lists, and mappings in ascending
order of their names.
-/

namespace PipelineExpansion.Yaml

/-- A value made of texts. -/
inductive Graph where
  | text (s : String)
  | list (items : List Graph)
  | mapping (entries : List (String × Graph))
deriving Repr, BEq, Inhabited

namespace Graph

/-- The text of a text value. -/
def text? : Graph → Option String
  | text s => some s
  | _ => none

/-- Follows names through nested mappings. -/
def follow? : Graph → List String → Option Graph
  | g, [] => some g
  | mapping entries, name :: rest => do follow? (← List.lookup name entries) rest
  | _, _ :: _ => none

mutual

/-- A graph as JSON. -/
def toJson : Graph → Json
  | text s => .text s
  | list items => .array (itemsJson items)
  | mapping entries => .object (entriesJson entries)

/-- Items as JSON. -/
def itemsJson : List Graph → List Json
  | [] => []
  | g :: rest => g.toJson :: itemsJson rest

/-- Entries as JSON. -/
def entriesJson : List (String × Graph) → List (String × Json)
  | [] => []
  | (k, g) :: rest => (k, g.toJson) :: entriesJson rest

end

end Graph
end PipelineExpansion.Yaml
