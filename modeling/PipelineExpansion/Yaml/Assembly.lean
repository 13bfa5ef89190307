import PipelineExpansion.Text.Blank
import PipelineExpansion.Yaml.Render

/-!
# Assembling a tree from events

A tree can be written piece by piece: starts and ends of collections, and scalars, which inside a mapping
are keys and values by turns. Ends without a fitting start are passed over, and what is still open at the
end is dropped.
-/

namespace PipelineExpansion.Yaml

/-- A collection that is being written. A mapping may hold a key that waits for its value. -/
inductive Frame where
  | mapping (entries : List (String × Tree)) (key : Option String)
  | sequence (items : List Tree)

/-- The collections being written, the innermost first, and the tree that was completed last outside all of
them. -/
structure Assembly where
  frames : List Frame
  root : Option Tree

namespace Assembly

/-- Nothing written yet. -/
def empty : Assembly := ⟨[], none⟩

/-- Adds a complete tree. As the key of a mapping it is taken by its text. -/
def add (a : Assembly) (t : Tree) : Assembly :=
  match a.frames with
  | [] => { a with root := some t }
  | .sequence items :: outer => { a with frames := .sequence (items ++ [t]) :: outer }
  | .mapping entries (some key) :: outer =>
    { a with frames := .mapping (Tree.putEntry entries key t) none :: outer }
  | .mapping entries none :: outer =>
    { a with frames := .mapping entries (some (Text.trimEnd t.render)) :: outer }

/-- Starts a mapping. -/
def startMapping (a : Assembly) : Assembly := { a with frames := .mapping [] none :: a.frames }

/-- Starts a sequence. -/
def startSequence (a : Assembly) : Assembly := { a with frames := .sequence [] :: a.frames }

/-- Ends the innermost collection if it is a mapping, and drops it otherwise. -/
def endMapping (a : Assembly) : Assembly :=
  match a.frames with
  | .mapping entries _ :: outer => add { a with frames := outer } (.mapping entries)
  | frames => { a with frames := frames.drop 1 }

/-- Ends the innermost collection if it is a sequence, and drops it otherwise. -/
def endSequence (a : Assembly) : Assembly :=
  match a.frames with
  | .sequence items :: outer => add { a with frames := outer } (.sequence items)
  | frames => { a with frames := frames.drop 1 }

/-- Writes a text: the key of an entry, or a value. -/
def text (a : Assembly) (s : String) : Assembly :=
  match a.frames with
  | .mapping entries none :: outer => { a with frames := .mapping entries (some s) :: outer }
  | _ => a.add (.text s)

mutual

/-- Writes a graph piece by piece: a text, or the start of a collection, what is in it, and its end. -/
def graph (a : Assembly) : Graph → Assembly
  | .text s => a.text s
  | .list items => (graphItems a.startSequence items).endSequence
  | .mapping entries => (graphEntries a.startMapping entries).endMapping

/-- Writes items one after another. -/
def graphItems (a : Assembly) : List Graph → Assembly
  | [] => a
  | g :: rest => graphItems (a.graph g) rest

/-- Writes entries one after another, each a key and a value. -/
def graphEntries (a : Assembly) : List (String × Graph) → Assembly
  | [] => a
  | (key, g) :: rest => graphEntries ((a.text key).graph g) rest

end

/-- The tree that was written, null when there is none. -/
def finish (a : Assembly) : Tree := a.root.getD .null

end Assembly
end PipelineExpansion.Yaml
