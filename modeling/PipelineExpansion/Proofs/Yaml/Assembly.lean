import PipelineExpansion.Yaml.Assembly

/-!
# What the pieces of a graph add up to

A graph is written piece by piece: a collection is started, filled and ended, with the collections
around it on a stack and the key of an entry waiting for its value. Where a text is a value and not a
key, the pieces of a graph add up to its tree (`graph_eq_add`): all that is on the stack is left as it
was, but for the innermost collection, which gets the tree.

## Main results

* `finish_graph`: a graph that is written alone is assembled to its tree.
-/

namespace PipelineExpansion.Yaml.Assembly

/-- The innermost collection is a mapping that waits for a key, so that a text would be that key. -/
def AwaitsKey (a : Assembly) : Prop := ∃ entries outer, a.frames = .mapping entries none :: outer

theorem text_eq_add {a : Assembly} (h : ¬ a.AwaitsKey) (s : String) :
    a.text s = a.add (.text s) := by
  rw [text]
  split
  · next entries outer hframes => exact absurd ⟨entries, outer, hframes⟩ h
  · rfl

mutual

/-- **The pieces of a graph add up to its tree.** -/
theorem graph_eq_add {a : Assembly} (h : ¬ a.AwaitsKey) (g : Graph) :
    a.graph g = a.add (.ofGraph g) := by
  match g with
  | .text s => rw [graph, text_eq_add h, Tree.ofGraph]
  | .list items =>
      rw [graph, startSequence, graphItems_eq items [], List.nil_append, Tree.ofGraph]
      rfl
  | .mapping entries =>
      rw [graph, startMapping, graphEntries_eq entries [], Tree.ofGraph]
      rfl

/-- Items are added to the sequence that is being written. -/
theorem graphItems_eq (items : List Graph) (done : List Tree) (outer : List Frame)
    (root : Option Tree) :
    graphItems ⟨.sequence done :: outer, root⟩ items =
      ⟨.sequence (done ++ Tree.ofGraphs items) :: outer, root⟩ := by
  match items with
  | [] => rw [graphItems, Tree.ofGraphs, List.append_nil]
  | g :: rest =>
      have hvalue : ¬ AwaitsKey ⟨.sequence done :: outer, root⟩ := by rintro ⟨_, _, ⟨⟩⟩
      rw [graphItems, graph_eq_add hvalue, add, graphItems_eq rest, Tree.ofGraphs,
        List.append_assoc, List.singleton_append]

/-- Entries are put into the mapping that is being written; behind each of them it waits for a key
again. -/
theorem graphEntries_eq (entries : List (String × Graph)) (done : List (String × Tree))
    (outer : List Frame) (root : Option Tree) :
    graphEntries ⟨.mapping done none :: outer, root⟩ entries =
      ⟨.mapping ((Tree.ofGraphEntries entries).foldl (fun es e => Tree.putEntry es e.1 e.2) done)
        none :: outer, root⟩ := by
  match entries with
  | [] => rfl
  | (key, g) :: rest =>
      have hvalue : ¬ AwaitsKey ⟨.mapping done (some key) :: outer, root⟩ := by
        rintro ⟨_, _, ⟨⟩⟩
      rw [graphEntries, text, graph_eq_add hvalue, add, graphEntries_eq rest, Tree.ofGraphEntries,
        List.foldl_cons]

end

/-- **A graph that is written alone is assembled to its tree.** -/
theorem finish_graph (g : Graph) : (empty.graph g).finish = .ofGraph g := by
  have hvalue : ¬ empty.AwaitsKey := by rintro ⟨_, _, ⟨⟩⟩
  rw [graph_eq_add hvalue]
  rfl

end PipelineExpansion.Yaml.Assembly
