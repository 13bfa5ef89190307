import PipelineExpansion.Files
import PipelineExpansion.Task.Catalog
import PipelineExpansion.Template.Limits
import PipelineExpansion.Template.Schema
import PipelineExpansion.Text.Name

/-!
# Contexts

A context is what a document is read in: where its files come from and what bounds it, and the directory
and the repository that references in it are relative to. A template has a context of its own.
-/

namespace PipelineExpansion.Template

/-- The surroundings of a document. -/
structure Context where
  files : Files
  schema : Schema
  tasks : Option Task.Catalog := none
  limits : Limits := {}
  vars : Dictionary String := []
  repository : Option String := none
  directory : Option String := none
  /-- Descriptors of repositories, by the alias that references use. -/
  repositories : Dictionary String := []

/-- Adds a segment of a path to segments that are already normal, the last of them first. -/
def addSegment (segments : List String) (segment : String) : List String :=
  if segment = "" || segment = "." then segments
  else if segment = ".." then segments.drop 1
  else segment :: segments

/-- The segments of a path seen from a directory: no empty ones and no dots, and `..` takes away the one
before it, if there is one. -/
def segmentsFrom (directory path : String) : List String :=
  ((Text.split '/' directory ++ Text.split '/' path).foldl addSegment []).reverse

/-- A path seen from a directory. -/
def relativeTo (directory path : String) : String := Text.join "/" (segmentsFrom directory path)

/-- The directory of a path; none for a file at the root. -/
def directoryOf (path : String) : Option String :=
  ((Text.splitLast? '/' path).map (·.1)).filter (!·.isEmpty)

namespace Context

/-- The context of the template at a path of a repository. -/
def child (c : Context) (path : String) (repository : Option String) : Context :=
  { c with directory := directoryOf path, repository }

/-- The path and the repository of a reference. One with an alias behind `@` is relative to the root of
that repository, `self` being the first one; any other is relative to the current directory. -/
def locate (c : Context) (reference : String) : Except Diagnostic (String × Option String) :=
  match Text.splitOnce? "@" reference with
  | none => .ok (relativeTo (c.directory.getD ".") reference, c.repository)
  | some (path, aliasName) =>
    if Text.sameName aliasName "self" then .ok (path, none)
    else
      match c.repositories.find? aliasName with
      | some descriptor => .ok (path, some descriptor)
      | none => .error (.unreadable ("Repository '" ++ aliasName ++ "' not found"))

/-- Adds aliases; those that are known stay. -/
def withRepositories (c : Context) (aliases : List (String × String)) : Context :=
  { c with repositories := aliases.foldl (fun known (aliasName, descriptor) =>
      if known.has aliasName then known else known.put aliasName descriptor) c.repositories }

end Context

/-- A path with its repository, as files are named in messages. -/
def displayName (path : String) : Option String → String
  | none => path
  | some repository => path ++ "@" ++ repository

end PipelineExpansion.Template
