/-!
# Dictionaries

A dictionary is a list of entries in ascending order of their names, each name once. `put` keeps it so,
whatever the order in which the entries come; it is the order in which dictionaries are written.
-/

namespace PipelineExpansion

/-- Entries in ascending order of their names. -/
abbrev Dictionary (α : Type) := List (String × α)

namespace Dictionary

/-- The value under a name. -/
def find? {α : Type} (d : Dictionary α) (name : String) : Option α := List.lookup name d

/-- Whether there is an entry for a name. -/
def has {α : Type} (d : Dictionary α) (name : String) : Bool := (d.find? name).isSome

/-- Puts a value under a name, in place of the one that was there. -/
def put {α : Type} : Dictionary α → String → α → Dictionary α
  | [], name, value => [(name, value)]
  | (k, v) :: rest, name, value =>
    if name < k then (name, value) :: (k, v) :: rest
    else if name = k then (name, value) :: rest
    else (k, v) :: put rest name value

/-- Removes the entry for a name. -/
def remove {α : Type} (d : Dictionary α) (name : String) : Dictionary α :=
  d.filter fun (k, _) => k ≠ name

/-- The dictionary of some entries; of two with one name the later counts. -/
def ofEntries {α : Type} (entries : List (String × α)) : Dictionary α :=
  entries.foldl (fun d (k, v) => put d k v) []

/-- The names. -/
def names {α : Type} (d : Dictionary α) : List String := d.map (·.1)

end Dictionary
end PipelineExpansion
