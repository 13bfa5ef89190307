import Mathlib.Data.List.Nodup
import Mathlib.Data.List.Perm.Basic
import PipelineExpansion.DependencyGraph

/-!
# Schedules of dependency graphs

`DependencyGraph.check` walks a graph depth first and keeps the nodes it has left behind, the last
one in front. A node is left only when everything it needs has been left before, so this list,
read backwards, is a schedule of the graph. The invariant is `Settled`; one visit keeps it and
adds only nodes that are not on the path to it (`visit_advances`).

## Main results

* `indexOf?_isSome_of_check`: a graph that passes the check knows every need.
* `exists_isSchedule_of_check`: a graph that passes the check has a schedule.
-/

namespace PipelineExpansion.DependencyGraph

/-- An order of all nodes in which whatever a node needs stands in front of it. -/
def IsSchedule (g : DependencyGraph) (order : List Nat) : Prop :=
  order.Perm (List.range g.length) ∧
    ∀ before i after, order = before ++ i :: after → ∀ j ∈ g.next i, j ∈ before

/-- The numbers that names stand for are numbers of nodes. -/
theorem lt_length_of_mem_next {g : DependencyGraph} {i j : Nat} (h : j ∈ g.next i) :
    j < g.length := by
  obtain ⟨name, -, hj⟩ := List.mem_filterMap.mp h
  exact (List.findIdx?_eq_some_iff_getElem.mp hj).1

/-- A graph that passes the check knows every need. -/
theorem indexOf?_isSome_of_check {g : DependencyGraph} (h : g.check = .ok ()) {n : Node}
    (hn : n ∈ g) {need : String} (hneed : need ∈ n.needs) : (g.indexOf? need).isSome := by
  have hnone : g.unknownNeed? = none := by
    rw [check] at h
    cases hu : g.unknownNeed? with
    | none => rfl
    | some pair => rw [hu] at h; cases h
  rw [unknownNeed?, List.findSome?_eq_none_iff] at hnone
  have := hnone n hn
  rw [Option.map_eq_none_iff, List.find?_eq_none] at this
  simpa [Option.isSome_iff_ne_none] using this need hneed

/-! ### The walk -/

/-- Nodes that the walk has left, the last one in front: each is left once, behind all that it
needs. -/
def Settled (g : DependencyGraph) : List Nat → Prop
  | [] => True
  | i :: done => i < g.length ∧ i ∉ done ∧ (∀ j ∈ g.next i, j ∈ done) ∧ Settled g done

/-- What a part of the walk below `path` does to the nodes that were left before it. -/
structure Advances (g : DependencyGraph) (path done done' : List Nat) : Prop where
  settled : Settled g done'
  keeps : done ⊆ done'
  avoids : ∀ k ∈ done', k ∈ done ∨ k ∉ path

theorem Advances.refl {g : DependencyGraph} {done : List Nat} (h : Settled g done)
    (path : List Nat) : Advances g path done done :=
  ⟨h, fun _ hk => hk, fun _ hk => .inl hk⟩

theorem Advances.trans {g : DependencyGraph} {path a b c : List Nat} (h₁ : Advances g path a b)
    (h₂ : Advances g path b c) : Advances g path a c := by
  refine ⟨h₂.settled, fun _ hk => h₂.keeps (h₁.keeps hk), fun k hk => ?_⟩
  rcases h₂.avoids k hk with hb | hpath
  · exact h₁.avoids k hb
  · exact .inr hpath

/-- Visits one after another advance the walk if each of them does, and leave all their nodes. -/
theorem visitAll_advances {g : DependencyGraph} {path : List Nat}
    {visit : Nat → List Nat → Except (List Nat) (List Nat)}
    (hvisit : ∀ {i done done'}, i < g.length → Settled g done → visit i done = .ok done' →
      Advances g path done done' ∧ i ∈ done') :
    ∀ {nodes done done'}, (∀ i ∈ nodes, i < g.length) → Settled g done →
      visitAll visit nodes done = .ok done' → Advances g path done done' ∧ nodes ⊆ done' := by
  intro nodes
  induction nodes with
  | nil =>
      intro done done' _ hs h
      obtain rfl : done = done' := Except.ok.inj h
      exact ⟨.refl hs path, List.nil_subset _⟩
  | cons i rest ih =>
      intro done done' hlt hs h
      rw [visitAll] at h
      cases hv : visit i done with
      | error cycle => rw [hv] at h; cases h
      | ok next =>
          rw [hv] at h
          obtain ⟨hfirst, hi⟩ := hvisit (hlt i List.mem_cons_self) hs hv
          obtain ⟨hrest, hsub⟩ :=
            ih (fun j hj => hlt j (List.mem_cons_of_mem _ hj)) hfirst.settled h
          exact ⟨hfirst.trans hrest, List.cons_subset.mpr ⟨hrest.keeps hi, hsub⟩⟩

/-- **One visit advances the walk** and leaves its node. Induction on the bound of the path; the
node itself is on the path of the visits it makes, so none of them leaves it. -/
theorem visit_advances {g : DependencyGraph} :
    ∀ {n path i done done'}, i < g.length → Settled g done → visit g n path i done = .ok done' →
      Advances g path done done' ∧ i ∈ done' := by
  intro n
  induction n with
  | zero => intro path i done done' _ _ h; cases h
  | succ n ih =>
      intro path i done done' hi hs h
      rw [visit] at h
      split at h
      · next hdone =>
          obtain rfl : done = done' := Except.ok.inj h
          exact ⟨.refl hs path, by simpa using hdone⟩
      · next hdone =>
          split at h
          · cases h
          · next hpath =>
              cases hall : visitAll (visit g n (path ++ [i])) (g.next i) done with
              | error cycle => rw [hall] at h; cases h
              | ok left =>
                  rw [hall] at h
                  obtain rfl : i :: left = done' := Except.ok.inj h
                  obtain ⟨hadv, hneeds⟩ :=
                    visitAll_advances ih (fun j hj => lt_length_of_mem_next hj) hs hall
                  have hfresh : i ∉ left := by
                    intro hmem
                    rcases hadv.avoids i hmem with h | h
                    · exact hdone (by simpa using h)
                    · exact h (by simp)
                  refine ⟨⟨⟨hi, hfresh, fun j hj => hneeds hj, hadv.settled⟩,
                    fun k hk => List.mem_cons_of_mem _ (hadv.keeps hk), fun k hk => ?_⟩,
                    List.mem_cons_self⟩
                  rcases List.mem_cons.mp hk with rfl | hk
                  · exact .inr (by simpa using hpath)
                  · exact (hadv.avoids k hk).imp id fun h hk => h (by simp [hk])

/-! ### From the walk to a schedule -/

theorem Settled.nodup {g : DependencyGraph} {done : List Nat} (h : Settled g done) :
    done.Nodup := by
  induction done with
  | nil => exact List.nodup_nil
  | cons i done ih => exact List.nodup_cons.mpr ⟨h.2.1, ih h.2.2.2⟩

theorem Settled.lt_length {g : DependencyGraph} {done : List Nat} (h : Settled g done) :
    ∀ i ∈ done, i < g.length := by
  induction done with
  | nil => intro i hi; cases hi
  | cons k done ih =>
      intro i hi
      rcases List.mem_cons.mp hi with rfl | hi
      · exact h.1
      · exact ih h.2.2.2 i hi

/-- Behind a node stands all that it needs. -/
theorem Settled.mem_of_mem_next {g : DependencyGraph} {after before : List Nat} {i : Nat}
    (h : Settled g (after ++ i :: before)) {j : Nat} (hj : j ∈ g.next i) : j ∈ before := by
  induction after with
  | nil => exact h.2.2.1 j hj
  | cons k after ih => exact ih h.2.2.2

/-- Nodes that were left, all of them, are a schedule when they are read backwards. -/
theorem Settled.isSchedule {g : DependencyGraph} {done : List Nat} (h : Settled g done)
    (hall : ∀ i < g.length, i ∈ done) : IsSchedule g done.reverse := by
  refine ⟨?_, fun before i after heq j hj => ?_⟩
  · refine done.reverse_perm.trans ((List.perm_ext_iff_of_nodup h.nodup List.nodup_range).mpr ?_)
    intro i
    rw [List.mem_range]
    exact ⟨h.lt_length i, hall i⟩
  · have hdone : done = after.reverse ++ i :: before.reverse := by
      rw [← List.reverse_reverse done, heq]
      simp
    rw [hdone] at h
    exact List.mem_reverse.mp (h.mem_of_mem_next hj)

/-- **A graph that passes the check has a schedule.** -/
theorem exists_isSchedule_of_check {g : DependencyGraph} (h : g.check = .ok ()) :
    ∃ order, IsSchedule g order := by
  rw [check] at h
  split at h
  · cases h
  · cases hv : visitAll (visit g (g.length + 1) []) (List.range g.length) [] with
    | error cycle => rw [hv] at h; cases h
    | ok done =>
        obtain ⟨hadv, hsub⟩ :=
          visitAll_advances visit_advances (fun i hi => List.mem_range.mp hi)
            (show Settled g [] from trivial) hv
        exact ⟨done.reverse, hadv.settled.isSchedule fun i hi => hsub (List.mem_range.mpr hi)⟩

/-! ### Orders of what the nodes stand for -/

section Nodes

variable {α : Type} {node : α → Node} {xs : List α}

/-- Whatever a name stands for has that name. -/
theorem exists_getElem?_of_indexOf? {name : String} {j : Nat}
    (h : indexOf? (xs.map node) name = some j) :
    ∃ y, xs[j]? = some y ∧ Text.sameName (node y).name name := by
  obtain ⟨hj, hname, -⟩ := List.findIdx?_eq_some_iff_getElem.mp h
  have hlt : j < xs.length := by simpa using hj
  exact ⟨xs[j], List.getElem?_eq_getElem hlt, by simpa using hname⟩

/-- Things whose graph passes the check need nothing that is not among them. -/
theorem exists_sameName_of_check (h : check (xs.map node) = .ok ()) {x : α} (hx : x ∈ xs)
    {need : String} (hneed : need ∈ (node x).needs) :
    ∃ y ∈ xs, Text.sameName (node y).name need := by
  obtain ⟨j, hj⟩ := Option.isSome_iff_exists.mp
    (indexOf?_isSome_of_check h (List.mem_map_of_mem hx) hneed)
  obtain ⟨y, hy, hname⟩ := exists_getElem?_of_indexOf? hj
  exact ⟨y, List.mem_of_getElem? hy, hname⟩

/-- **Things whose graph passes the check can be put in an order** in which whatever a thing needs
stands in front of it: a schedule of their graph, read as the things its numbers stand for. -/
theorem exists_order_of_check (h : check (xs.map node) = .ok ()) :
    ∃ order : List α, order.Perm xs ∧ ∀ before x after, order = before ++ x :: after →
      ∀ need ∈ (node x).needs, ∃ y ∈ before, Text.sameName (node y).name need := by
  obtain ⟨numbers, hperm, hsched⟩ := exists_isSchedule_of_check h
  have hsome : (List.range xs.length).map (fun i => xs[i]?) = xs.map some := by
    refine List.ext_getElem (by simp) (fun i _ hi => ?_)
    rw [List.length_map] at hi
    simp [hi]
  have hall : (List.range xs.length).filterMap (fun i => xs[i]?) = xs := by
    calc (List.range xs.length).filterMap (fun i => xs[i]?)
        = ((List.range xs.length).map fun i => xs[i]?).filterMap id := by
          rw [List.filterMap_map, Function.id_comp]
      _ = (xs.map some).filterMap id := by rw [hsome]
      _ = xs := by rw [List.filterMap_map, Function.id_comp, List.filterMap_some]
  refine ⟨numbers.filterMap fun i => xs[i]?, ?_, fun before x after heq need hneed => ?_⟩
  · have hread := hperm.filterMap fun i => xs[i]?
    rwa [List.length_map, hall] at hread
  · obtain ⟨l₁, l₂, rfl, rfl, hl₂⟩ := List.filterMap_eq_append_iff.mp heq
    obtain ⟨skipped, i, l₃, rfl, hskipped, hi, -⟩ := List.filterMap_eq_cons_iff.mp hl₂
    have hmem : (node x) ∈ xs.map node := List.mem_map_of_mem (List.mem_of_getElem? hi)
    obtain ⟨j, hj⟩ := Option.isSome_iff_exists.mp (indexOf?_isSome_of_check h hmem hneed)
    have hnext : j ∈ next (xs.map node) i := by
      rw [next, List.mem_filterMap]
      exact ⟨need, by simpa [hi] using hneed, hj⟩
    obtain ⟨y, hy, hname⟩ := exists_getElem?_of_indexOf? hj
    have hbefore := hsched (l₁ ++ skipped) i l₃ (by simp) j hnext
    rcases List.mem_append.mp hbefore with hmem | hmem
    · exact ⟨y, List.mem_filterMap.mpr ⟨j, hmem, hy⟩, hname⟩
    · rw [hskipped j hmem] at hy
      cases hy

end Nodes

end PipelineExpansion.DependencyGraph
