/-!
# Positions in a document

A `Mark` is a line and a column, both counted from one; a `Span` runs from one mark to another. Every
event and every token of a document carries the span it was read from, and diagnostics quote it.
-/

namespace PipelineExpansion.Yaml

/-- A position in the text of a document; both numbers count from one. -/
structure Mark where
  line : Nat
  column : Nat
deriving DecidableEq, Repr, Inhabited

/-- A stretch of the text of a document, from its first position to the one just after it. -/
structure Span where
  start : Mark
  stop : Mark
deriving DecidableEq, Repr, Inhabited

/-- The empty stretch at a position. -/
def Span.point (mark : Mark) : Span := ⟨mark, mark⟩

/-- The place a diagnostic names: the line and column where the span starts. -/
def Span.label (span : Span) : String :=
  toString span.start.line ++ ":" ++ toString span.start.column

end PipelineExpansion.Yaml
