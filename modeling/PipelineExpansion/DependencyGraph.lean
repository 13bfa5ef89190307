import PipelineExpansion.Text.Name

/-!
# Dependencies

Nodes have names and need others by name, compared without regard to ASCII case; a name stands for the
first node that has it. `DependencyGraph.check` says whether everything that is needed is there and
nothing needs itself, directly or through others.
-/

namespace PipelineExpansion

/-- A node: its name and the names it needs. -/
structure DependencyGraph.Node where
  name : String
  needs : List String
deriving DecidableEq, Repr

/-- Nodes with the names they need. -/
abbrev DependencyGraph := List DependencyGraph.Node

namespace DependencyGraph

/-- What is wrong with dependencies. -/
inductive Fault where
  | unknown (node need : String)
  | cycle (nodes : List Nat)
deriving DecidableEq, Repr

/-- The number of the node that a name stands for. -/
def indexOf? (g : DependencyGraph) (name : String) : Option Nat :=
  g.findIdx? fun n => Text.sameName n.name name

/-- The numbers of the nodes that a node needs. -/
def next (g : DependencyGraph) (i : Nat) : List Nat :=
  (((g[i]?).map (·.needs)).getD []).filterMap g.indexOf?

/-- A need that no node has the name of, with the node that needs it. -/
def unknownNeed? (g : DependencyGraph) : Option (String × String) :=
  g.findSome? fun n => (n.needs.find? fun need => (g.indexOf? need).isNone).map fun need => (n.name, need)

/-- Visits nodes one after another, with what is known to be free of cycles. -/
def visitAll (visit : Nat → List Nat → Except (List Nat) (List Nat)) :
    List Nat → List Nat → Except (List Nat) (List Nat)
  | [], done => .ok done
  | i :: rest, done => do visitAll visit rest (← visit i done)

/-- Visits a node and all it needs: the nodes known to be free of cycles, or a cycle. `path` leads to the
node. The number bounds the length of paths. -/
def visit (g : DependencyGraph) : Nat → List Nat → Nat → List Nat → Except (List Nat) (List Nat)
  | 0, path, _, _ => .error path
  | n + 1, path, i, done =>
    if done.contains i then .ok done
    else if path.contains i then .error (path.dropWhile (· ≠ i) ++ [i])
    else do
      let done ← visitAll (visit g n (path ++ [i])) (g.next i) done
      return i :: done

/-- Checks that every need is there and that there is no cycle. -/
def check (g : DependencyGraph) : Except Fault Unit :=
  match g.unknownNeed? with
  | some (node, need) => .error (.unknown node need)
  | none =>
    match visitAll (visit g (g.length + 1) []) (List.range g.length) [] with
    | .ok _ => .ok ()
    | .error cycle => .error (.cycle cycle)

/-- The names of nodes. -/
def namesOf (g : DependencyGraph) (nodes : List Nat) : List String :=
  nodes.map fun i => ((g[i]?).map (·.name)).getD ""

end DependencyGraph
end PipelineExpansion
