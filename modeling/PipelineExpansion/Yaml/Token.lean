import PipelineExpansion.Yaml.Mark

/-!
# Tokens of a YAML text

A text is cut into tokens before it is read as events. Indentation appears among the tokens as explicit
starts and ends of block collections, and a key that was recognised only by the colon after it is
announced by a `key` token in front of it.
-/

namespace PipelineExpansion.Yaml

/-- The kinds of token. -/
inductive TokenKind where
  | streamStart
  | streamEnd
  | versionDirective
  | tagDirective (handle : String)
  | documentStart
  | documentEnd
  | blockSequenceStart
  | blockMappingStart
  | blockEnd
  | flowSequenceStart
  | flowSequenceEnd
  | flowMappingStart
  | flowMappingEnd
  | blockEntry
  | flowEntry
  | key
  | value
  | anchor (name : String)
  | reference (name : String)
  | tag (handle : String)
  | scalar (text : String) (plain : Bool)
deriving DecidableEq, Repr

/-- A token, at the position it is reported at. -/
structure Token where
  mark : Mark
  kind : TokenKind
deriving DecidableEq, Repr

end PipelineExpansion.Yaml
