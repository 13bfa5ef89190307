import PipelineExpansion.Diagnostic
import PipelineExpansion.BuildProcess.Model
import PipelineExpansion.Text.Blank
import PipelineExpansion.Text.Pieces

/-!
# Replacing tags

Before a document is read, the tags in it, `\x7b\x7bname\x7d\x7d`, are replaced by values: texts as they
are, other values as JSON, and nothing for a name that has no value. A name may lead through mappings with
dots. Tags with `!` are comments. What has been put in place of a tag is not looked at again.
-/

namespace PipelineExpansion.BuildProcess

open Yaml (Graph)

/-- What opens a tag. -/
def tagOpening : List Char := ['\x7b', '\x7b']

/-- A tag: the text in it without blanks around it, and what follows it. Three braces close a tag that
three braces open. The characters are those behind the opening. -/
def tag? (after : List Char) : Option (String × List Char) :=
  let found :=
    match after with
    | '\x7b' :: inner => Text.cut? ['\x7d', '\x7d', '\x7d'] inner
    | inner => Text.cut? ['\x7d', '\x7d'] inner
  found.map fun (body, rest) => (Text.trim (String.ofList body), rest)

/-- The value that a path of names leads to. -/
def valueAt? (values : Parameters) (path : String) : Option Graph :=
  match Text.split '.' path with
  | [] => none
  | head :: rest => (values.find? head).bind (·.follow? rest)

/-- The text of a value. -/
def valueText : Graph → String
  | .text s => s
  | g => g.toJson.compact

/-- The text that takes the place of a tag; none for a comment. -/
def replacement (values : Parameters) (expression : String) : Except Diagnostic (Option String) :=
  match expression.toList.head? with
  | some '!' => .ok none
  | some c =>
    if ['#', '/', '^', '>', '&'].contains c then
      .error (.shapeAt none ("Unsupported mustache expression '\x7b\x7b" ++ expression ++ "\x7d\x7d'"))
    else .ok (((valueAt? values expression).map valueText).getD "")
  | none => .ok (((valueAt? values expression).map valueText).getD "")

/-- Checks the length of a result; zero stands for no limit. -/
def checkLength (maximum : Nat) (result : String) : Except Diagnostic Unit :=
  if 0 < maximum && maximum < result.utf8ByteSize then
    .error (.limit ("Maximum mustache result length of " ++ toString maximum ++ " exceeded."))
  else .ok ()

/-- Replaces tags, of which there are at most `n`, behind the result so far. -/
def renderFrom (values : Parameters) (maximum : Nat) :
    Nat → String → List Char → Except Diagnostic String
  | 0, result, rest => .ok (result ++ String.ofList rest)
  | n + 1, result, rest =>
    match Text.cut? tagOpening rest with
    | none => do
      let result := result ++ String.ofList rest
      checkLength maximum result
      return result
    | some (before, after) =>
      match tag? after with
      | none => .error (.shapeAt none "Unclosed mustache expression, expected '\x7d\x7d'")
      | some (expression, rest) => do
        let result := result ++ String.ofList before
        match ← replacement values expression with
        | none => renderFrom values maximum n result rest
        | some text => do
          let result := result ++ text
          checkLength maximum result
          renderFrom values maximum n result rest

/-- A text with its tags replaced. -/
def render (template : String) (values : Parameters) (maximum : Nat) : Except Diagnostic String :=
  renderFrom values maximum (template.length + 1) "" template.toList

end PipelineExpansion.BuildProcess
