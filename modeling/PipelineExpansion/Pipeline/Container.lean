import PipelineExpansion.Pipeline.Steps

/-!
# Containers and pools

A container is given as the name of an image or of a container resource, or as a mapping; a pool as its
name or as a mapping. Properties that mean nothing are passed over.
-/

namespace PipelineExpansion.Pipeline

open Template (Entry Token)

/-- Reads a directory of the mounts. -/
def Mounts.read (m : Mounts) (e : Entry) : Except Diagnostic Mounts := do
  let value := some (← e.2.expectText "mountReadOnly")
  match e.1.name with
  | "work" => return { m with work := value }
  | "externals" => return { m with externals := value }
  | "tools" => return { m with tools := value }
  | "tasks" => return { m with tasks := value }
  | other => throw (e.1.fault ("Unexpected mountReadOnly property '" ++ other ++ "'"))

/-- Mounts of a token. -/
def Mounts.ofToken? (t : Token) : Except Diagnostic Mounts := do
  (← t.expectMapping "mountReadOnly").foldlM Mounts.read {}

/-- Reads a property of a container. -/
def Container.read (c : Container) (e : Entry) : Except Diagnostic Container :=
  let (key, value) := e
  match key.name with
  | "container" => do return { c with aliasName := some (← value.expectNonEmpty "container") }
  | "image" => do return { c with image := some (← value.expectText "image") }
  | "endpoint" => do return { c with endpoint := some (← value.expectText "endpoint") }
  | "env" => do return { c with env := some (Dictionary.ofEntries (← value.expectTextMap "env")) }
  | "mapDockerSocket" => do
    return { c with mapDockerSocket := some (← value.expectText "mapDockerSocket") }
  | "options" => do return { c with options := some (← value.expectText "options") }
  | "ports" => do return { c with ports := some (← value.expectTexts "ports") }
  | "volumes" => do return { c with volumes := some (← value.expectTexts "volumes") }
  | "mountReadOnly" => do return { c with mountReadOnly := some (← Mounts.ofToken? value) }
  | _ => .ok c

/-- The container of a token: of a scalar, its image; of a mapping, what it says. -/
def Container.ofToken? (t : Token) : Except Diagnostic Container :=
  if t.isScalar then do return { image := some (← t.expectNonEmpty "container") }
  else do (← t.expectMapping "container").foldlM Container.read {}

/-- Whether a container is no more than a name, which may be that of a resource. -/
def Container.isReference (c : Container) : Bool :=
  c.image.isSome && c = { image := c.image }

/-- Mounts as a token. -/
def Mounts.toToken (m : Mounts) : Token :=
  .ofPairs (field "work" .ofText m.work
    ++ field "externals" .ofText m.externals
    ++ field "tools" .ofText m.tools
    ++ field "tasks" .ofText m.tasks)

/-- A container as a token. -/
def Container.toToken (c : Container) : Token :=
  .ofPairs (field "container" .ofText c.aliasName
    ++ field "image" .ofText c.image
    ++ field "endpoint" .ofText c.endpoint
    ++ field "mapDockerSocket" .ofText c.mapDockerSocket
    ++ field "options" .ofText c.options
    ++ field "env" pairsToken c.env
    ++ field "ports" textsToken c.ports
    ++ field "volumes" textsToken c.volumes
    ++ field "mountReadOnly" Mounts.toToken c.mountReadOnly)

/-- Reads a property of a pool. -/
def Pool.read (p : Pool) (e : Entry) : Except Diagnostic Pool :=
  let (key, value) := e
  match key.name with
  | "name" => do return { p with name := some (← value.expectText "name") }
  | "vmImage" => do return { p with vmImage := some (← value.expectText "vmImage") }
  | "demands" => do return { p with demands := some (← value.expectTexts "demands") }
  | _ => .ok p

/-- The pool of a token. -/
def Pool.ofToken? (t : Token) : Except Diagnostic Pool :=
  if t.isScalar then do return { name := some (← t.expectText "pool") }
  else do (← t.expectMapping "pool").foldlM Pool.read {}

/-- A pool as a token. -/
def Pool.toToken (p : Pool) : Token :=
  .ofPairs (field "name" .ofText p.name
    ++ field "vmImage" .ofText p.vmImage
    ++ field "demands" textsToken p.demands)

end PipelineExpansion.Pipeline
