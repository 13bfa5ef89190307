import PipelineExpansion.CommandLine.Run

/-!
# The program

A command is carried out on what is known of the disk. It says which places it looked at; where some of
them were not known, they are fetched and the command is carried out again, until nothing is missing.
-/

namespace PipelineExpansion.CommandLine

/-- Adds what is at a place to a disk. What cannot be read is not there. -/
def fetch (disk : Disk) (place : List String) : IO Disk := do
  try
    let path ← IO.FS.realPath (Disk.pathOf place)
    if ← path.isDir then return { disk with directories := place :: disk.directories }
    else return { disk with files := (place, ← IO.FS.readFile path) :: disk.files }
  catch _ => return disk

/-- Carries out a command, fetching what it looks at. -/
partial def settle (c : Command) (directory : List String) (disk : Disk)
    (known : List (List String)) : IO Transcript := do
  let t := c.run ⟨disk, directory⟩
  match t.places.eraseDups.filter (!known.contains ·) with
  | [] => return t
  | unknown => settle c directory (← unknown.foldlM fetch disk) (unknown ++ known)

/-- Carries out the command that arguments stand for. -/
def start (arguments : List String) : IO UInt32 := do
  match Command.ofArguments? arguments with
  | .error m =>
    IO.eprintln ("error: " ++ m.message)
    return 2
  | .ok c =>
    let current := (← IO.FS.realPath (← IO.currentDir)).toString
    let directory := (Text.split '/' current).filter (!·.isEmpty)
    let disk ← (Disk.ancestors directory).foldlM fetch ⟨[], []⟩
    let t ← settle c directory disk []
    IO.print t.written
    IO.eprint (t.remarks Message.coloured)
    if t.refusal.isSome then IO.eprintln ""
    return t.code.toUInt32

end PipelineExpansion.CommandLine

/-- The entry of the program. -/
def main (arguments : List String) : IO UInt32 := PipelineExpansion.CommandLine.start arguments
