import PipelineExpansion.BuildProcess.Model
import PipelineExpansion.Yaml.Cursor

/-!
# Values in front of a document

A document may begin with a mapping of values between two lines of `---`. They are the defaults of the
values that its tags are replaced by.
-/

namespace PipelineExpansion.BuildProcess

open Yaml (Reader)

/-- The lines of a text, each with the line break at its end. -/
def linesOf : List Char → List (List Char)
  | [] => []
  | c :: rest =>
    if c = '\n' then [c] :: linesOf rest
    else
      match linesOf rest with
      | [] => [[c]]
      | line :: more => (c :: line) :: more

/-- Whether a line is a delimiter. -/
def isDelimiter (line : List Char) : Bool :=
  (line.reverse.dropWhile fun c => c = '\n' || c = '\r') = ['-', '-', '-']

/-- Reads the values in front of a document. -/
def readValues (path text : String) : Except Diagnostic Parameters :=
  let parsed : Except Diagnostic Parameters := do
    let events ← Yaml.events text
    if events.isEmpty then return []
    else ((Reader.mapping 1).run.run (.ofEvents events)).1
  parsed.mapError fun d =>
    let message := "Error parsing preamble data in file '" ++ path ++ "': " ++ d.message
    (Diagnostic.shapeAt d.span message).withFile path

/-- The diagnostic of values that no delimiter ends. -/
def unended (path : String) : Diagnostic :=
  (Diagnostic.shapeAt none ("Unexpected end of file '" ++ path ++ "'. The file started with '---' to " ++
    "indicate a preamble data section. The end of the file was reached without finding a " ++
    "corresponding closing '---'.")).withFile path

/-- The values in front of a document, if it begins with a delimiter, and the document itself. -/
def frontMatter (path content : String) : Except Diagnostic (Option Parameters × String) :=
  match linesOf content.toList with
  | [] => .ok (none, content)
  | first :: rest =>
    if !isDelimiter first then .ok (none, content)
    else
      let values := rest.takeWhile (!isDelimiter ·)
      match rest.dropWhile (!isDelimiter ·) with
      | _ :: body => do
        let values ← readValues path (String.ofList values.flatten)
        return (some values, String.ofList body.flatten)
      | [] => .error (unended path)

end PipelineExpansion.BuildProcess
