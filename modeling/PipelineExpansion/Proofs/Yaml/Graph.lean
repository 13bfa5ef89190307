import PipelineExpansion.Proofs.Yaml.Tree

/-!
# Graphs and the depth of their collections

A graph that has been read fits into the levels that were allowed for it, and its mappings are
dictionaries (`Graph.Fits`). Such a graph is taken off the events of its tree again, with the same
number of levels.

## Main results

* `yields_mapping`: what is read as a mapping fits.
* `takes_graphMapping`, `takes_graphSequence`: mappings and sequences that fit are taken off their
  trees.
-/

namespace PipelineExpansion.Yaml

variable {α β : Type}

/-- Whether a graph has no more levels of collections than a number, and dictionaries as mappings.
-/
def Graph.Fits : Nat → Graph → Prop
  | _, .text _ => True
  | 0, _ => False
  | n + 1, .list items => ∀ g ∈ items, g.Fits n
  | n + 1, .mapping entries => Dictionary.Canonical entries ∧ ∀ e ∈ entries, e.2.Fits n

/-- The kind of collection that a graph is. -/
def Graph.kind? : Graph → Option Reader.Collection
  | .text _ => none
  | .list _ => some .list
  | .mapping _ => some .mapping

/-- Reads a value in a collection, in which there may be some more levels. -/
def Reader.node (levels : Nat) : Reader Graph := do
  if ← scalarComes then return .text (← scalar).text
  else if ← comes .sequenceStart then collection levels .list
  else collection levels .mapping

/-- Reads an entry of a mapping, in which there may be some more levels, into those before it. -/
def Reader.graphEntry (levels : Nat) (d : Dictionary Graph) : Reader (Dictionary Graph) := do
  let key ← scalar
  refuseDuplicate key (d.has key.text)
  let value ← node levels
  return d.put key.text value

theorem collection_list (n : Nat) : Reader.collection (n + 1) .list =
    Reader.sequenceOf (Reader.node n) >>= fun items => pure (.list items) := by
  rw [Reader.sequenceOf, bind_assoc]
  rfl

theorem collection_mapping (n : Nat) : Reader.collection (n + 1) .mapping =
    Reader.mappingOf [] (Reader.graphEntry n) >>= fun entries => pure (.mapping entries) := by
  rw [Reader.collection, Reader.mappingOf, bind_assoc]
  refine bind_congr fun _ => congrArg (· >>= _) (congrArg (Reader.untilEnd _ _) (funext fun d => ?_))
  simp only [Reader.graphEntry, Reader.node, bind_assoc]
  refine bind_congr fun key => bind_congr fun _ => bind_congr fun single => ?_
  cases single with
  | true =>
      simp only [if_true, bind_assoc]
      rfl
  | false =>
      simp only [Bool.false_eq_true, if_false, bind_assoc]
      -- Looking at the next event takes nothing, so it does not matter when that is done.
      refine bind_congr fun isList => ?_
      split <;> rfl

/-! ### What is read -/

theorem yields_node {n : Nat} (h : ∀ kind, Yields (Reader.collection n kind) (·.Fits n)) :
    Yields (Reader.node n) (·.Fits n) := by
  refine yields_bind_of_forall fun single => ?_
  split
  · refine yields_bind_of_forall fun s => yields_pure ?_
    cases n <;> trivial
  · refine yields_bind_of_forall fun isList => ?_
    split <;> exact h _

theorem yields_collection (n : Nat) (kind : Reader.Collection) :
    Yields (Reader.collection n kind) fun g => g.Fits n ∧ g.kind? = some kind := by
  induction n generalizing kind with
  | zero => cases kind <;> exact yields_bind_of_forall fun _ _ _ _ hrun => nomatch hrun
  | succ n ih =>
      have hnode := yields_node fun kind => (ih kind).imp fun _ hg => hg.1
      cases kind with
      | list =>
          rw [collection_list]
          exact (yields_sequenceOf hnode).bind fun items hitems => yields_pure ⟨hitems, rfl⟩
      | mapping =>
          rw [collection_mapping]
          refine Yields.bind (P := fun d : Dictionary Graph => d.Canonical ∧
            ∀ e ∈ d, e.2.Fits n) ?_
            fun entries hentries => yields_pure ⟨hentries, rfl⟩
          refine yields_mappingOf ⟨Dictionary.canonical_nil, nofun⟩ fun d ⟨hcanonical, hfits⟩ => ?_
          refine yields_bind_of_forall fun key => yields_bind_of_forall fun _ => ?_
          refine hnode.bind fun value hvalue => yields_pure ⟨hcanonical.put, fun e he => ?_⟩
          rcases Dictionary.mem_put he with rfl | hmem
          · exact hvalue
          · exact hfits e hmem

/-- What is read as a mapping at a depth fits into the levels below it. -/
theorem yields_mapping (depth : Nat) :
    Yields (Reader.mapping depth) fun d => (Graph.mapping d).Fits (Reader.levelsAt depth) := by
  refine (yields_collection _ _).bind fun g ⟨hfits, hkind⟩ => ?_
  cases g with
  | mapping entries => exact yields_pure hfits
  | _ => cases hkind

/-! ### What is taken -/

theorem ofGraphs_eq (items : List Graph) : Tree.ofGraphs items = items.map Tree.ofGraph := by
  induction items with
  | nil => rfl
  | cons g rest ih => rw [Tree.ofGraphs, ih, List.map_cons]

theorem ofGraphEntries_eq (entries : List (String × Graph)) :
    Tree.ofGraphEntries entries = entries.map fun e => (e.1, Tree.ofGraph e.2) := by
  induction entries with
  | nil => rfl
  | cons e rest ih => rw [Tree.ofGraphEntries, ih, List.map_cons]

/-- The tree of a dictionary has its entries as they are. -/
theorem Tree.ofEntries_of_canonical {d : Dictionary α} (h : d.Canonical) (write : α → Tree) :
    ofEntries (d.map fun e => (e.1, write e.2)) = .mapping (d.map fun e => (e.1, write e.2)) := by
  refine ofEntries_of_nodup ?_
  rw [keys, List.map_map]
  exact h.nodup_names

/-- The event that a collection starts with. -/
def Reader.Collection.start : Reader.Collection → Event
  | .list => .sequenceStart
  | .mapping => .mappingStart

theorem events_ofGraph {g : Graph} {kind : Reader.Collection} (h : g.kind? = some kind) :
    ∃ w, (Tree.ofGraph g).events = kind.start :: w := by
  cases g with
  | text => cases h
  | list => cases h; exact ⟨_, rfl⟩
  | mapping => cases h; exact ⟨_, rfl⟩

/-- A value that begins as a collection is read as one of its kind. -/
theorem takes_node_of_collection {n : Nat} {kind : Reader.Collection} {w : List Event} {g : Graph}
    (h : Takes (Reader.collection n kind) (kind.start :: w) g) :
    Takes (Reader.node n) (kind.start :: w) g := by
  cases kind <;> exact takes_scalarComes_bind (takes_comes_bind rfl h)

/-- A value is taken off its tree where collections are. -/
theorem takes_node {n : Nat} {g : Graph} (h : ∀ kind, g.kind? = some kind →
      Takes (Reader.collection n kind) (Tree.ofGraph g).events g) :
    Takes (Reader.node n) (Tree.ofGraph g).events g := by
  cases hkind : g.kind? with
  | some kind =>
      obtain ⟨w, hevents⟩ := events_ofGraph hkind
      have htake := h kind hkind
      rw [hevents] at htake ⊢
      exact takes_node_of_collection htake
  | none =>
      cases g with
      | text s => exact takes_scalarComes_bind (takes_scalar_map Graph.text s)
      | _ => cases hkind

/-- An entry with a new name is put to those that have been read. -/
theorem takes_graphEntry {n : Nat} {d : Dictionary Graph} {key : String} {g : Graph}
    (hnew : key ∉ d.names) (h : Takes (Reader.node n) (Tree.ofGraph g).events g) :
    Takes (Reader.graphEntry n d) (.scalar key false :: (Tree.ofGraph g).events) (d.put key g) := by
  refine takes_scalar_bind fun name hname _ => ?_
  rw [hname]
  have hfresh : d.has key = false := by rwa [← Dictionary.has_iff, Bool.not_eq_true] at hnew
  exact takes_refuseDuplicate_bind hfresh (h.map (d.put key ·))

theorem entries_graphs {n : Nat} {entries : Dictionary Graph} (hcanonical : entries.Canonical)
    (h : ∀ e ∈ entries, Takes (Reader.node n) (Tree.ofGraph e.2).events e.2) :
    Entries (Reader.graphEntry n) [] (entries.map fun e => (e.1, Tree.ofGraph e.2)) entries := by
  have hentries := entries_put (g := id) (· ≠ ·)
    (fun d e he hfresh => takes_graphEntry (fun hmem => hfresh _ hmem rfl) (h e he))
    (hcanonical.imp ne_of_lt)
  have hsame : Dictionary.ofEntries (entries.map fun e => (e.1, id e.2)) = entries :=
    Dictionary.ofEntries_eq_of_perm hcanonical (by simp)
  rwa [hsame] at hentries

/-- **A collection that fits is taken off its tree.** -/
theorem takes_collection {n : Nat} {g : Graph} (hg : g.Fits n) {kind : Reader.Collection}
    (hkind : g.kind? = some kind) :
      Takes (Reader.collection n kind) (Tree.ofGraph g).events g := by
  induction n generalizing g kind with
  | zero =>
      cases g with
      | text => cases hkind
      | _ => exact hg.elim
  | succ n ih =>
      have hnode : ∀ {g : Graph}, g.Fits n → Takes (Reader.node n) (Tree.ofGraph g).events g :=
        fun hg => takes_node fun _ hkind => ih hg hkind
      cases g with
      | text => cases hkind
      | list items =>
          cases hkind
          rw [collection_list, Tree.ofGraph, ofGraphs_eq]
          exact (takes_sequenceOf_self fun g hmem => hnode (hg g hmem)).map Graph.list
      | mapping entries =>
          cases hkind
          rw [collection_mapping, Tree.ofGraph, ofGraphEntries_eq,
            Tree.ofEntries_of_canonical hg.1]
          have hentries := entries_graphs hg.1 fun e he => hnode (hg.2 e he)
          exact (takes_mapping hentries).map Graph.mapping

theorem takes_graphMapping {depth : Nat} {d : Dictionary Graph}
    (h : (Graph.mapping d).Fits (Reader.levelsAt depth)) :
    Takes (Reader.mapping depth) (Tree.ofGraph (.mapping d)).events d :=
  (takes_collection h rfl).bind_nil (takes_pure d)

theorem takes_graphSequence {depth : Nat} {items : List Graph}
    (h : (Graph.list items).Fits (Reader.levelsAt depth)) :
    Takes (Reader.sequence depth) (Tree.ofGraph (.list items)).events items :=
  (takes_collection h rfl).bind_nil (takes_pure items)

end PipelineExpansion.Yaml
