import PipelineExpansion.Files

/-!
# Disks

A disk is a tree of directories and files. Paths are followed segment by segment, as the operating system
follows them: `.` and empty segments stay, `..` goes to the directory above, and every segment but the
last has to be a directory.
-/

namespace PipelineExpansion

/-- The files of a disk, each with the names on the way from the root to it, and directories. What a file
lies below is a directory, too. -/
structure Disk where
  files : List (List String × String)
  directories : List (List String) := []

namespace Disk

/-- Why a path leads to nothing that can be read. -/
inductive Fault where
  | missing
  | notDirectory
  | isDirectory
deriving DecidableEq, Repr

/-- The wording of a fault. -/
def Fault.message : Fault → String
  | missing => "No such file or directory (os error 2)"
  | notDirectory => "Not a directory (os error 20)"
  | isDirectory => "Is a directory (os error 21)"

/-- The content of a file. -/
def content? (d : Disk) (place : List String) : Option String := d.files.lookup place

/-- Whether a place is a directory; the root always is one. -/
def isDirectory (d : Disk) (place : List String) : Bool :=
  place.isEmpty || d.directories.contains place
    || d.files.any fun (path, _) => place.isPrefixOf path && path ≠ place

/-- Follows segments from a place. -/
def follow (d : Disk) (place : List String) : List String → Except Fault (List String)
  | [] => .ok place
  | segment :: rest =>
    if !d.isDirectory place then .error .notDirectory
    else if segment = "" || segment = "." then follow d place rest
    else if segment = ".." then follow d place.dropLast rest
    else
      let next := place ++ [segment]
      if d.isDirectory next || (d.content? next).isSome then follow d next rest else .error .missing

/-- The place that a path leads to from a directory; a path with a slash in front starts at the root. -/
def resolve (d : Disk) (directory : List String) (path : String) : Except Fault (List String) :=
  if path.isEmpty then .error .missing
  else if path.startsWith "/" then d.follow [] (Text.split '/' path)
  else d.follow directory (Text.split '/' path)

/-- Whether a path leads to a file or directory. -/
def has (d : Disk) (directory : List String) (path : String) : Bool :=
  (d.resolve directory path).toBool

/-- The text of the file that a path leads to. -/
def read (d : Disk) (directory : List String) (path : String) : Except Fault String := do
  let place ← d.follow directory (Text.split '/' path)
  match d.content? place with
  | some content => return content
  | none => throw .isDirectory

/-- The places that are passed when segments are followed, whatever is there. -/
def wayFrom (place : List String) : List String → List (List String)
  | [] => []
  | segment :: rest =>
    if segment = "" || segment = "." then wayFrom place rest
    else
      let next := if segment = ".." then place.dropLast else place ++ [segment]
      next :: wayFrom next rest

/-- The places that are passed on the way from a directory to where a path leads, whatever is there. -/
def way (directory : List String) (path : String) : List (List String) :=
  wayFrom (if path.startsWith "/" then [] else directory) (Text.split '/' path)

/-- The directories from a place up to the root. -/
def ancestors (place : List String) : List (List String) :=
  (List.range (place.length + 1)).reverse.map place.take

/-- The text of a place: the names with a slash in front of each. -/
def pathOf (place : List String) : String := "/" ++ Text.join "/" place

/-- The entry for a repository: for its descriptor, or for the name in it. -/
def checkout? {α : Type} (repositories : Dictionary α) (descriptor : String) : Option α :=
  repositories.find? descriptor <|> ((Files.descriptorName? descriptor).bind repositories.find?)

/-- The files of a directory, and of other directories that stand for repositories. A directory that is
not there has no files. -/
def provider (d : Disk) (root : Option (List String)) (repositories : Dictionary (Option (List String))) :
    Files where
  read repository path :=
    let base : Except Files.Fault (Option (List String)) :=
      match repository with
      | none => .ok root
      | some name =>
        match checkout? repositories name with
        | some directory => .ok directory
        | none => .error (.unknownRepository name)
    do
      let inside := String.ofList (path.toList.dropWhile (· = '/'))
      match ← base with
      | none => throw (.notFound path)
      | some directory =>
        match d.read directory inside with
        | .ok content => return content
        | .error .missing => throw (.notFound path)
        | .error fault => throw (.unreadable path fault.message)

end Disk
end PipelineExpansion
