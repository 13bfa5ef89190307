import PipelineExpansion.Diagnostic
import PipelineExpansion.Text.Pieces

/-!
# Transcripts

What a command has to say is a list of messages, each on a line of its own, beside the text that it
writes. It may end early: with a diagnostic, whose lines are messages, or with a refusal. A transcript also
holds the places of the disk that the command looked at.
-/

namespace PipelineExpansion.CommandLine

/-- How the first part of a message stands out. -/
inductive Style where
  | status
  | check
  | success
  | heading
  | dim
  | failure
  | plain
deriving DecidableEq, Repr

/-- The codes of a style on a terminal. -/
def Style.codes : Style → Option String
  | status => some "1;36"
  | check => some "32"
  | success => some "1;32"
  | heading => some "1;34"
  | dim => some "2"
  | failure => some "1;31"
  | plain => none

/-- A line for whoever runs a command: a label, which stands out, and what is behind it. -/
structure Message where
  style : Style := .plain
  label : String := ""
  text : String := ""
deriving DecidableEq, Repr

namespace Message

/-- A message without styles. -/
def bare (m : Message) : String := m.label ++ m.text

/-- A message with its label in the colours of a terminal. -/
def coloured (m : Message) : String :=
  match m.style.codes with
  | some codes => "\x1b[" ++ codes ++ "m" ++ m.label ++ "\x1b[0m" ++ m.text
  | none => m.bare

/-- What is being done, with the word for it at the right of a column. -/
def status (action text : String) : Message :=
  ⟨.status, String.ofList (List.replicate (12 - action.length) ' ') ++ action, " " ++ text⟩

/-- Something that holds. -/
def check (text : String) : Message := ⟨.check, "  ✓", " " ++ text⟩

/-- That all is well. -/
def success (text : String) : Message := ⟨.success, "  ✓", " " ++ text⟩

/-- A remark. -/
def dim (text : String) : Message := ⟨.dim, text, ""⟩

/-- The heading of a stage. -/
def stage (name : String) (jobs : Nat) : Message :=
  ⟨.heading, "  Stage", " '" ++ name ++ "' (" ++ toString jobs ++ " jobs)"⟩

/-- The lines of a diagnostic. -/
def ofDiagnostic (d : Diagnostic) : List Message :=
  match Text.lines d.text with
  | [] => []
  | first :: rest =>
    ⟨.failure, "error:", " " ++ (Text.stripPrefix? "error: " first).getD first⟩ ::
      rest.map fun line => { text := line }

end Message

/-- What came of a command. -/
structure Transcript where
  /-- The text that the command writes. -/
  written : String := ""
  messages : List Message := []
  /-- Why the command was not carried out. -/
  refusal : Option String := none
  succeeded : Bool := true
  /-- The places of the disk that were looked at. -/
  places : List (List String) := []
deriving DecidableEq, Repr

namespace Transcript

/-- The lines for whoever runs the command, with a refusal at the end. -/
def remarks (line : Message → String) (t : Transcript) : String :=
  String.join (t.messages.map fun m => line m ++ "\n")
    ++ (t.refusal.map ("Error: 0: " ++ ·)).getD ""

/-- The exit code of the command. -/
def code (t : Transcript) : Nat := if t.succeeded then 0 else 1

end Transcript

/-- A step of a command. One that fails has said why. -/
abbrev Session (α : Type) := ExceptT Unit (StateM Transcript) α

namespace Session

/-- Says something. -/
def say (m : Message) : Session Unit := modify fun t => { t with messages := t.messages ++ [m] }

/-- Writes a text. -/
def write (text : String) : Session Unit := modify fun t => { t with written := t.written ++ text }

/-- Looks at places. -/
def look (places : List (List String)) : Session Unit :=
  modify fun t => { t with places := t.places ++ places }

/-- Ends the command before it was carried out. -/
def refuse {α : Type} (reason : String) : Session α := do
  modify fun t => { t with refusal := some reason, succeeded := false }
  throw ()

/-- Ends the command with a diagnostic. -/
def fail {α : Type} (d : Diagnostic) : Session α := do
  modify fun t => { t with messages := t.messages ++ Message.ofDiagnostic d, succeeded := false }
  throw ()

/-- Goes on with a value, or ends the command with a diagnostic. -/
def ofExcept {α : Type} : Except Diagnostic α → Session α
  | .ok a => pure a
  | .error d => fail d

/-- The transcript of a command. -/
def transcript (s : Session Unit) : Transcript := (s.run.run {}).2

end Session
end PipelineExpansion.CommandLine
