import PipelineExpansion.Proofs.Yaml.Assembly
import PipelineExpansion.Proofs.Yaml.Graph
import PipelineExpansion.Proofs.Yaml.Refusal

/-!
# How deep a graph may be to be read back

The reader of graphs counts the levels of collections down and refuses a collection for which no level is
left. A graph that is too deep has a first item or entry that is too deep by one level less; what stands
in front of it is taken, and there the reader fails (`refuses_collection`). So writing a graph and
reading it is the identity up to ten levels, and a limit beyond.

## Main results

* `fits_iff`: the graphs that fit into some levels are those of dictionaries, no deeper than that.
* `refuses_collection`: graphs that are deeper are refused for their depth.
* `readBack_of_graph`: what comes of reading a graph that has been written.
-/

namespace PipelineExpansion.Yaml

/-! ### Dictionaries and depth -/

/-- All mappings in a graph are dictionaries. -/
inductive Graph.Canonical : Graph → Prop where
  | text (s : String) : (Graph.text s).Canonical
  | list {items : List Graph} (h : ∀ g ∈ items, g.Canonical) : (Graph.list items).Canonical
  | mapping {entries : Dictionary Graph} (h : entries.Canonical)
      (h' : ∀ e ∈ entries, e.2.Canonical) : (Graph.mapping entries).Canonical

namespace Graph

mutual

/-- How deeply collections are nested in a graph, itself included. -/
def depth : Graph → Nat
  | .text _ => 0
  | .list items => itemsDepth items + 1
  | .mapping entries => entriesDepth entries + 1

/-- How deeply collections are nested in items. -/
def itemsDepth : List Graph → Nat
  | [] => 0
  | g :: rest => max g.depth (itemsDepth rest)

/-- How deeply collections are nested in the values of entries. -/
def entriesDepth : List (String × Graph) → Nat
  | [] => 0
  | (_, g) :: rest => max g.depth (entriesDepth rest)

end

theorem itemsDepth_le {items : List Graph} {n : Nat} :
    itemsDepth items ≤ n ↔ ∀ g ∈ items, g.depth ≤ n := by
  induction items with
  | nil => simp [itemsDepth]
  | cons g rest ih => rw [itemsDepth, Nat.max_le, ih, List.forall_mem_cons]

theorem entriesDepth_le {entries : List (String × Graph)} {n : Nat} :
    entriesDepth entries ≤ n ↔ ∀ e ∈ entries, e.2.depth ≤ n := by
  induction entries with
  | nil => simp [entriesDepth]
  | cons e rest ih => rw [entriesDepth, Nat.max_le, ih, List.forall_mem_cons]

/-- **Graphs that fit into some levels are those of dictionaries that are no deeper.** -/
theorem fits_iff {n : Nat} {g : Graph} : g.Fits n ↔ g.Canonical ∧ g.depth ≤ n := by
  induction n generalizing g with
  | zero =>
      cases g with
      | text s => simp [Fits, depth, Canonical.text]
      | list items => simp [Fits, depth]
      | mapping entries => simp [Fits, depth]
  | succ n ih =>
      cases g with
      | text s => simp [Fits, depth, Canonical.text]
      | list items =>
          simp only [Fits, ih, depth, Nat.add_le_add_iff_right, itemsDepth_le]
          constructor
          · exact fun h => ⟨.list fun g hg => (h g hg).1, fun g hg => (h g hg).2⟩
          · rintro ⟨hcanonical, hdepth⟩
            cases hcanonical with
            | list h => exact fun g hg => ⟨h g hg, hdepth g hg⟩
      | mapping entries =>
          simp only [Fits, ih, depth, Nat.add_le_add_iff_right, entriesDepth_le]
          constructor
          · exact fun ⟨hd, h⟩ => ⟨.mapping hd fun e he => (h e he).1, fun e he => (h e he).2⟩
          · rintro ⟨hcanonical, hdepth⟩
            cases hcanonical with
            | mapping hd h => exact ⟨hd, fun e he => ⟨h e he, hdepth e he⟩⟩

/-- A graph that has some depth is a collection. -/
theorem exists_kind {g : Graph} {n : Nat} (h : n < g.depth) : ∃ kind, g.kind? = some kind := by
  cases g with
  | text s => exact absurd h (Nat.not_lt_zero n)
  | list items => exact ⟨.list, rfl⟩
  | mapping entries => exact ⟨.mapping, rfl⟩

end Graph

/-! ### Refusals -/

/-- The fault of a graph that is too deep, at some place. -/
def TooDeep (d : Diagnostic) : Prop := ∃ span, d = Reader.depthExceeded span

theorem TooDeep.kind_eq {d : Diagnostic} (h : TooDeep d) : d.kind = .limit := by
  obtain ⟨span, rfl⟩ := h
  rfl

/-- A value that begins as a collection is refused as one of its kind. -/
theorem refuses_node {n : Nat} {kind : Reader.Collection} {w : List Event}
    {P : Diagnostic → Prop} (h : Refuses (Reader.collection n kind) (kind.start :: w) P) :
    Refuses (Reader.node n) (kind.start :: w) P := by
  cases kind <;>
    exact (peeks_scalarComes _).refuses_bind ((peeks_comes rfl _).refuses_bind h)

/-- An entry with a new name is refused for its value. -/
theorem refuses_graphEntry {n : Nat} {d : Dictionary Graph} {key : String} {w : List Event}
    {P : Diagnostic → Prop} (hnew : key ∉ d.names) (h : Refuses (Reader.node n) w P) :
    Refuses (Reader.graphEntry n d) (.scalar key false :: w) P := by
  refine refuses_scalar_bind fun name hname _ => ?_
  have hfresh : d.has key = false := by rwa [← Dictionary.has_iff, Bool.not_eq_true] at hnew
  rw [hname, hfresh]
  exact h.bind _

/-- **A collection that is too deep is refused for that**: behind what fits in it comes the first item
or entry that is too deep itself, and at the last level the collection is refused as it starts. -/
theorem refuses_collection {n : Nat} {g : Graph} (hcanonical : g.Canonical) (hdeep : n < g.depth)
    {kind : Reader.Collection} (hkind : g.kind? = some kind) :
    Refuses (Reader.collection n kind) (Tree.ofGraph g).events TooDeep := by
  induction n generalizing g kind with
  | zero =>
      obtain ⟨w, hevents⟩ := events_ofGraph hkind
      rw [hevents]
      cases kind <;>
        exact refuses_expect_bind rfl fun span => (refuses_throw ⟨span, rfl⟩).append w
  | succ n ih =>
      have htakes : ∀ {g : Graph}, g.Canonical → g.depth ≤ n →
          Takes (Reader.node n) (Tree.ofGraph g).events g :=
        fun hg hdepth => takes_node fun _ => takes_collection (Graph.fits_iff.mpr ⟨hg, hdepth⟩)
      have hrefuses : ∀ {g : Graph}, g.Canonical → n < g.depth →
          Refuses (Reader.node n) (Tree.ofGraph g).events TooDeep := by
        intro g hg hdepth
        obtain ⟨kind, hkind⟩ := Graph.exists_kind hdepth
        have hrefused := ih hg hdepth hkind
        obtain ⟨w, hevents⟩ := events_ofGraph hkind
        rw [hevents] at hrefused ⊢
        exact refuses_node hrefused
      cases hcanonical with
      | text s => cases hkind
      | @list items hitems =>
          cases hkind
          rw [Graph.depth, Nat.add_lt_add_iff_right, ← Nat.not_le, Graph.itemsDepth_le] at hdeep
          obtain ⟨before, x, after, rfl, hbefore, hx⟩ := exists_first hdeep
          obtain ⟨hfront, hback⟩ := List.forall_mem_append.mp hitems
          have hcanonical := hback x List.mem_cons_self
          rw [collection_list, Tree.ofGraph, ofGraphs_eq]
          exact (refuses_sequenceOf (f := id) (fun y hy => htakes (hfront y hy) (hbefore y hy))
            (hrefuses hcanonical (Nat.lt_of_not_le hx))).bind _
      | @mapping entries hd hvalues =>
          cases hkind
          rw [Graph.depth, Nat.add_lt_add_iff_right, ← Nat.not_le, Graph.entriesDepth_le] at hdeep
          obtain ⟨before, ⟨key, value⟩, after, rfl, hbefore, hx⟩ := exists_first hdeep
          obtain ⟨hfront, hback⟩ := List.forall_mem_append.mp hvalues
          have hcanonical := hback (key, value) List.mem_cons_self
          obtain ⟨hbeforeCanonical, -, hless⟩ := List.pairwise_append.mp hd
          -- The name is new to the reader, so that it is the value that is refused.
          have hnew : key ∉ Dictionary.names before := by
            intro hmem
            obtain ⟨e, he, hsame⟩ := List.mem_map.mp hmem
            exact (hless e he (key, value) List.mem_cons_self).ne hsame
          have hkeys : (Tree.keys ((before ++ (key, value) :: after).map fun e =>
              (e.1, Tree.ofGraph e.2))).Nodup := by
            rw [Tree.keys, List.map_map]
            exact hd.nodup_names
          have hentries := entries_graphs hbeforeCanonical fun e he =>
            htakes (hfront e he) (hbefore e he)
          rw [collection_mapping, Tree.ofGraph, ofGraphEntries_eq]
          rw [List.map_append, List.map_cons] at hkeys ⊢
          exact (refuses_mappingOf hkeys hentries
            (refuses_graphEntry hnew (hrefuses hcanonical (Nat.lt_of_not_le hx)))).bind _

theorem refuses_graphMapping {depth : Nat} {d : Dictionary Graph}
    (hd : (Graph.mapping d).Canonical) (hdeep : Reader.levelsAt depth < (Graph.mapping d).depth) :
    Refuses (Reader.mapping depth) (Tree.ofGraph (.mapping d)).events TooDeep :=
  (refuses_collection hd hdeep rfl).bind _

theorem refuses_graphSequence {depth : Nat} {items : List Graph}
    (hitems : (Graph.list items).Canonical)
    (hdeep : Reader.levelsAt depth < (Graph.list items).depth) :
    Refuses (Reader.sequence depth) (Tree.ofGraph (.list items)).events TooDeep :=
  (refuses_collection hitems hdeep rfl).bind _

/-! ### Reading what was written -/

/-- **A graph that was written is read back when it has at most ten levels of collections, and is
refused for a limit otherwise**, whether it is a mapping or a sequence. -/
theorem readBack_of_graph {d : Dictionary Graph} {items : List Graph}
    (hd : (Graph.mapping d).Canonical) (hitems : (Graph.list items).Canonical) :
    ((Graph.mapping d).depth ≤ 10 →
        Takes (Reader.mapping 1) (Assembly.empty.graph (.mapping d)).finish.events d) ∧
      (10 < (Graph.mapping d).depth →
        Refuses (Reader.mapping 1) (Assembly.empty.graph (.mapping d)).finish.events
          (·.kind = .limit)) ∧
      ((Graph.list items).depth ≤ 10 →
        Takes (Reader.sequence 1) (Assembly.empty.graph (.list items)).finish.events items) ∧
      (10 < (Graph.list items).depth →
        Refuses (Reader.sequence 1) (Assembly.empty.graph (.list items)).finish.events
          (·.kind = .limit)) := by
  rw [Assembly.finish_graph, Assembly.finish_graph]
  refine ⟨fun h => ?_, fun h => ?_, fun h => ?_, fun h => ?_⟩
  · exact takes_graphMapping (Graph.fits_iff.mpr ⟨hd, h⟩)
  · have hrefused : Refuses (Reader.mapping 1) _ TooDeep := refuses_graphMapping hd h
    exact hrefused.imp fun _ => TooDeep.kind_eq
  · exact takes_graphSequence (Graph.fits_iff.mpr ⟨hitems, h⟩)
  · have hrefused : Refuses (Reader.sequence 1) _ TooDeep := refuses_graphSequence hitems h
    exact hrefused.imp fun _ => TooDeep.kind_eq

/-- A text in some lists, one in another. -/
def nestedLists : Nat → Graph
  | 0 => .text "deep"
  | n + 1 => .list [nestedLists n]

theorem canonical_nestedLists (n : Nat) : (nestedLists n).Canonical := by
  induction n with
  | zero => exact .text "deep"
  | succ n ih => exact .list (List.forall_mem_singleton.mpr ih)

/-- Ten levels in a mapping are read back, eleven in a sequence are not. -/
theorem readBack_of_graph_nested :
    Takes (Reader.mapping 1)
        (Assembly.empty.graph (.mapping [("a", .text "null"), ("b", nestedLists 9)])).finish.events
        [("a", .text "null"), ("b", nestedLists 9)] ∧
      Refuses (Reader.sequence 1)
        (Assembly.empty.graph (.list [.text "", nestedLists 10])).finish.events
        (·.kind = .limit) := by
  have hd : (Graph.mapping [("a", .text "null"), ("b", nestedLists 9)]).Canonical := by
    refine .mapping (List.pairwise_pair.mpr (by decide)) (List.forall_mem_cons.mpr ⟨.text _, ?_⟩)
    exact List.forall_mem_singleton.mpr (canonical_nestedLists 9)
  have hitems : (Graph.list [.text "", nestedLists 10]).Canonical := by
    refine .list (List.forall_mem_cons.mpr ⟨.text _, ?_⟩)
    exact List.forall_mem_singleton.mpr (canonical_nestedLists 10)
  obtain ⟨hread, -, -, hrefused⟩ := readBack_of_graph hd hitems
  exact ⟨hread (by decide), hrefused (by decide)⟩

end PipelineExpansion.Yaml
