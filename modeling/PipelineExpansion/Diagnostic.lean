import PipelineExpansion.Yaml.Mark

/-!
# Diagnostics

A diagnostic says what is wrong with a document, where, and in which file. The place that is recorded
first stays: what encloses the fault adds its own place only where none is known yet.
-/

namespace PipelineExpansion

/-- What a diagnostic is about: the shape of a document, its meaning, a limit that was passed, or a file
that could not be read. -/
inductive Diagnostic.Kind where
  | shape
  | meaning
  | limit
  | file
deriving DecidableEq, Repr

/-- A fault in a document. -/
structure Diagnostic where
  kind : Diagnostic.Kind
  message : String
  span : Option Yaml.Span := none
  file : Option String := none
  suggestion : Option String := none
deriving DecidableEq, Repr

namespace Diagnostic

/-- A fault in the shape of a document. -/
def shapeAt (span : Option Yaml.Span) (message : String) : Diagnostic :=
  { kind := .shape, message, span }

/-- A fault in the meaning of a document. -/
def meaning (message : String) : Diagnostic := { kind := .meaning, message }

/-- A limit was passed. -/
def limit (message : String) : Diagnostic := { kind := .limit, message }

/-- A file could not be read. -/
def unreadable (message : String) : Diagnostic := { kind := .file, message }

/-- Adds a place, unless one is known. -/
def withSpan (d : Diagnostic) (span : Option Yaml.Span) : Diagnostic :=
  { d with span := d.span <|> span }

/-- Adds a file, unless one is known. -/
def withFile (d : Diagnostic) (file : String) : Diagnostic :=
  { d with file := d.file <|> some file }

/-- Adds a hint, in place of an earlier one. -/
def withSuggestion (d : Diagnostic) (text : String) : Diagnostic :=
  { d with suggestion := some text }

/-- The line that says where the fault is. -/
def placeLine (d : Diagnostic) : String :=
  match d.file, d.span with
  | some file, some span => "  --> " ++ file ++ ":" ++ span.label ++ "\n"
  | some file, none => "  --> " ++ file ++ "\n"
  | none, some span => "  --> line " ++ span.label ++ "\n"
  | none, none => ""

/-- The text of a diagnostic, in lines. -/
def text (d : Diagnostic) : String :=
  "error: " ++ d.message ++ "\n" ++ d.placeLine ++
    match d.suggestion with
    | some s => "\nhelp: " ++ s ++ "\n"
    | none => ""

end Diagnostic
end PipelineExpansion
