import PipelineExpansion.Diagnostic
import PipelineExpansion.Dictionary
import PipelineExpansion.Text.Pieces

/-!
# Files of repositories

Documents are read from repositories by their paths. No repository means the one of the root document;
others are named by a descriptor, a name that may be followed by `@` and a revision.
-/

namespace PipelineExpansion

/-- Why a file cannot be read. -/
inductive Files.Fault where
  | notFound (path : String)
  | unknownRepository (name : String)
  | unreadable (path cause : String)
deriving DecidableEq, Repr

/-- Where documents are read from: the text at a path of a repository. -/
structure Files where
  read : Option String → String → Except Files.Fault String

namespace Files

/-- The wording of a fault. -/
def Fault.message : Fault → String
  | notFound path => "File not found: '" ++ path ++ "'"
  | unknownRepository name => "Repository '" ++ name ++ "' not found"
  | unreadable path cause => "Failed to read '" ++ path ++ "': " ++ cause

/-- The diagnostic of a fault; it names the file where there is one. -/
def Fault.diagnostic (f : Fault) : Diagnostic :=
  let d := Diagnostic.unreadable f.message
  match f with
  | notFound path | unreadable path _ => d.withFile path
  | unknownRepository _ => d

/-- The name in a descriptor, in front of the revision. -/
def descriptorName? (descriptor : String) : Option String :=
  (Text.splitOnce? "@" descriptor).map (·.1)

/-- Characters of a path without every `./` in front. -/
def dropHere : List Char → List Char
  | '.' :: '/' :: rest => dropHere rest
  | cs => cs

/-- A path without `./` and slashes in front. -/
def normalPath (path : String) : String :=
  String.ofList ((dropHere path.toList).dropWhile (· = '/'))

/-- A file that is held in memory. -/
structure Entry where
  repository : Option String
  path : String
  content : String
deriving DecidableEq, Repr

/-- The content at a normal path of a repository: of two entries the later counts. -/
def contentAt? (entries : List Entry) (repository : Option String) (path : String) : Option String :=
  (entries.reverse.find? fun e => e.repository = repository && normalPath e.path = path).map
    (·.content)

/-- Files held in memory. A file of a repository at a revision is looked up under the descriptor, then
under the name alone. -/
def inMemory (entries : List Entry) : Files where
  read repository path :=
    let path := normalPath path
    let named := (repository.bind descriptorName?).bind fun name => contentAt? entries (some name) path
    match contentAt? entries repository path <|> named with
    | some content => .ok content
    | none => .error (.notFound path)

end Files
end PipelineExpansion
