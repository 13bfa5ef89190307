import Mathlib.Data.List.Chain
import PipelineExpansion.Pipeline.Runtime
import PipelineExpansion.Proofs.DependencyGraph
import PipelineExpansion.Proofs.Outcome

/-!
# Dependencies that go round

`checkGraph` refuses dependencies in two cases: a need is the name of no node, or a node needs itself,
directly or through others. The walk behind it shares the nodes it has left between all the roots, and
gives up at the first node that is on the path to it already.

That what it refuses goes round is an invariant of the path: each node on it depends on the next
(`Leads`), so the part of the path behind the node that was met again is a cycle. That it refuses all that
goes round follows from the schedule which it leaves behind otherwise. The nodes on a path are distinct,
so the bound on its length is never met, and any larger one gives the same check (`checkWithin_eq_check`).

## Main results

* `DependencyGraph.check_eq_ok_iff`: the check succeeds exactly if all needs are there and no node depends on
  itself.
* `checkGraph_decides`: so does the check of a pipeline, and what it reports is so.
-/

namespace PipelineExpansion.DependencyGraph

open Relation (TransGen)

variable {g : DependencyGraph} {path nodes done cycle : List Nat} {i j m n : Nat} {name : String}

/-! ### What nodes depend on -/

/-- A name stands for a node: the first that has it, whatever the case of ASCII letters. -/
def StandsFor (g : DependencyGraph) (name : String) (j : Nat) : Prop :=
  ∃ node, g[j]? = some node ∧ Text.sameName node.name name ∧
    ∀ k < j, ∀ earlier, g[k]? = some earlier → ¬ Text.sameName earlier.name name

/-- A node depends directly on another one: it needs it by name. -/
def DependsOn (g : DependencyGraph) (i j : Nat) : Prop :=
  ∃ node, g[i]? = some node ∧ ∃ need ∈ node.needs, g.StandsFor need j

/-- Every need is the name of a node. -/
def Resolved (g : DependencyGraph) : Prop :=
  ∀ node ∈ g, ∀ need ∈ node.needs, ∃ j, g.StandsFor need j

/-- No node can reach itself through one or more dependencies. -/
def Acyclic (g : DependencyGraph) : Prop := ∀ i, ¬ TransGen g.DependsOn i i

/-- Nodes of which each depends directly on the next, the last one being the first. -/
structure IsCycle (g : DependencyGraph) (nodes : List Nat) : Prop where
  two_le : 2 ≤ nodes.length
  closed : nodes.head? = nodes.getLast?
  chain : nodes.IsChain g.DependsOn

theorem standsFor_iff : g.StandsFor name j ↔ g.indexOf? name = some j := by
  rw [indexOf?, List.findIdx?_eq_some_iff_getElem]
  constructor
  · rintro ⟨node, hnode, hname, hfirst⟩
    obtain ⟨hj, rfl⟩ := List.getElem?_eq_some_iff.mp hnode
    exact ⟨hj, hname, fun k hk => hfirst k hk _ (List.getElem?_eq_getElem _)⟩
  · rintro ⟨hj, hname, hfirst⟩
    refine ⟨g[j], List.getElem?_eq_getElem hj, hname, fun k hk earlier hearlier => ?_⟩
    obtain ⟨-, rfl⟩ := List.getElem?_eq_some_iff.mp hearlier
    exact hfirst k hk

theorem mem_next_iff : j ∈ g.next i ↔ g.DependsOn i j := by
  rw [next, List.mem_filterMap, DependsOn]
  cases hi : g[i]? with
  | none => simp
  | some node => simp [standsFor_iff]

theorem DependsOn.lt_length (h : g.DependsOn i j) : i < g.length := by
  obtain ⟨node, hnode, -⟩ := h
  obtain ⟨hlt, -⟩ := List.getElem?_eq_some_iff.mp hnode
  exact hlt

theorem unknownNeed?_eq_none_iff : g.unknownNeed? = none ↔ g.Resolved := by
  simp [unknownNeed?, Resolved, standsFor_iff, List.findSome?_eq_none_iff, ← Option.ne_none_iff_exists']

/-- A cycle leads from its first node back to it. -/
theorem IsCycle.exists_transGen (h : g.IsCycle nodes) : ∃ i, TransGen g.DependsOn i i := by
  obtain ⟨hlength, hclosed, hchain⟩ := h
  match nodes with
  | [] | [_] => simp at hlength
  | i :: j :: rest =>
      obtain ⟨hedge, hrest⟩ := List.isChain_cons_cons.mp hchain
      have hlast : (j :: rest).getLast (List.cons_ne_nil j rest) = i := by
        simpa [List.getLast?_eq_some_getLast] using hclosed.symm
      exact ⟨i, .head' hedge (List.relationReflTransGen_of_exists_isChain_cons rest hrest hlast)⟩

/-! ### One visit -/

theorem visit_of_mem_done (h : i ∈ done) : visit g (n + 1) path i done = .ok done := by
  rw [visit, if_pos (by simpa using h)]

theorem visit_of_mem_path (hdone : i ∉ done) (h : i ∈ path) :
    visit g (n + 1) path i done = .error (path.dropWhile (· ≠ i) ++ [i]) := by
  rw [visit, if_neg (by simpa using hdone), if_pos (by simpa using h)]

theorem visit_of_notMem (hdone : i ∉ done) (hpath : i ∉ path) :
    visit g (n + 1) path i done =
      (visitAll (visit g n (path ++ [i])) (g.next i) done).map (i :: ·) := by
  rw [visit, if_neg (by simpa using hdone), if_neg (by simpa using hpath)]
  rfl

/-- Where visits one after another fail, one of them does. -/
theorem exists_visit_of_visitAll_eq_error
    {visit : Nat → List Nat → Except (List Nat) (List Nat)} :
    ∀ {nodes done}, visitAll visit nodes done = .error cycle →
      ∃ i ∈ nodes, ∃ done, visit i done = .error cycle := by
  intro nodes
  induction nodes with
  | nil =>
      intro done h
      cases h
  | cons i rest ih =>
      intro done h
      rw [visitAll] at h
      cases hv : visit i done with
      | error found =>
          rw [hv] at h
          cases h
          exact ⟨i, List.mem_cons_self, done, hv⟩
      | ok left =>
          rw [hv] at h
          obtain ⟨j, hj, hvisit⟩ := ih h
          exact ⟨j, List.mem_cons_of_mem i hj, hvisit⟩

/-- Visits that agree on all nodes agree one after another. -/
theorem visitAll_congr {visit visit' : Nat → List Nat → Except (List Nat) (List Nat)} :
    ∀ {nodes}, (∀ i ∈ nodes, ∀ done, visit i done = visit' i done) →
      ∀ done, visitAll visit nodes done = visitAll visit' nodes done := by
  intro nodes
  induction nodes with
  | nil => exact fun _ _ => rfl
  | cons i rest ih =>
      intro h done
      rw [visitAll, visitAll, h i List.mem_cons_self done]
      exact bind_congr fun left => ih (fun j hj => h j (List.mem_cons_of_mem i hj)) left

/-! ### The path to a node -/

/-- A path leads to a node: its nodes are distinct, and each depends on the next, the last one on the
node. -/
structure Leads (g : DependencyGraph) (path : List Nat) (i : Nat) : Prop where
  nodup : path.Nodup
  lt : ∀ k ∈ path, k < g.length
  chain : (path ++ [i]).IsChain g.DependsOn

theorem leads_nil (g : DependencyGraph) (i : Nat) : Leads g [] i where
  nodup := List.nodup_nil
  lt := List.forall_mem_nil _
  chain := List.isChain_singleton i

/-- A node that is not on the path to it is on the path to what it depends on. -/
theorem Leads.step (h : Leads g path i) (hi : i ∉ path) (hj : j ∈ g.next i) :
    Leads g (path ++ [i]) j where
  nodup := List.concat_eq_append ▸ h.nodup.concat hi
  lt := List.forall_mem_append.mpr
    ⟨h.lt, List.forall_mem_singleton.mpr (mem_next_iff.mp hj).lt_length⟩
  chain := by
    rw [List.append_assoc]
    exact List.isChain_split.mpr ⟨h.chain, List.isChain_pair.mpr (mem_next_iff.mp hj)⟩

/-- A path is no longer than there are nodes. -/
theorem Leads.length_le (h : Leads g path i) : path.length ≤ g.length := by
  have hsub : path ⊆ List.range g.length := fun k hk => List.mem_range.mpr (h.lt k hk)
  simpa using (List.subperm_of_subset h.nodup hsub).length_le

/-- What stands on a path from a node on is a cycle, if the path leads to that node again. -/
theorem Leads.isCycle (h : Leads g path i) (hi : i ∈ path) :
    g.IsCycle (path.dropWhile (· ≠ i) ++ [i]) := by
  obtain ⟨before, after, rfl, hbefore⟩ := List.eq_append_cons_of_mem hi
  have hdrop : (before ++ i :: after).dropWhile (· ≠ i) = i :: after := by
    rw [List.dropWhile_append_of_pos, List.dropWhile_cons_of_neg (by simp)]
    exact fun k hk => decide_eq_true fun heq => hbefore (heq ▸ hk)
  rw [hdrop]
  have hchain := h.chain
  rw [List.append_assoc] at hchain
  exact ⟨by simp, List.getLast?_concat.symm, hchain.right_of_append⟩

/-- **A visit that fails has found a cycle.** Induction on the bound of the path, which is never met. -/
theorem isCycle_of_visit :
    ∀ {n path i done}, Leads g path i → g.length < n + path.length →
      visit g n path i done = .error cycle → g.IsCycle cycle := by
  intro n
  induction n with
  | zero =>
      intro path i done hleads hbound _
      have := hleads.length_le
      omega
  | succ n ih =>
      intro path i done hleads hbound h
      by_cases hdone : i ∈ done
      · rw [visit_of_mem_done hdone] at h
        cases h
      by_cases hpath : i ∈ path
      · rw [visit_of_mem_path hdone hpath] at h
        cases h
        exact hleads.isCycle hpath
      · rw [visit_of_notMem hdone hpath] at h
        cases hall : visitAll (visit g n (path ++ [i])) (g.next i) done with
        | ok left =>
            rw [hall] at h
            cases h
        | error found =>
            rw [hall] at h
            cases h
            obtain ⟨j, hj, done', hvisit⟩ := exists_visit_of_visitAll_eq_error hall
            have hlonger : (path ++ [i]).length = path.length + 1 := List.length_append
            exact ih (hleads.step hpath hj) (by omega) hvisit

/-- **The bound does not matter** once it is larger than the number of nodes: no visit gets that deep. -/
theorem visit_eq_visit :
    ∀ {n m path i done}, Leads g path i → g.length < n + path.length →
      g.length < m + path.length → visit g n path i done = visit g m path i done := by
  intro n
  induction n with
  | zero =>
      intro m path i done hleads hbound _
      have := hleads.length_le
      omega
  | succ n ih =>
      intro m path i done hleads hn hm
      cases m with
      | zero =>
          have := hleads.length_le
          omega
      | succ m =>
          by_cases hdone : i ∈ done
          · rw [visit_of_mem_done hdone, visit_of_mem_done hdone]
          by_cases hpath : i ∈ path
          · rw [visit_of_mem_path hdone hpath, visit_of_mem_path hdone hpath]
          · rw [visit_of_notMem hdone hpath, visit_of_notMem hdone hpath]
            refine congrArg _ (visitAll_congr (fun j hj done' => ?_) done)
            have hlonger : (path ++ [i]).length = path.length + 1 := List.length_append
            exact ih (hleads.step hpath hj) (by omega) (by omega)

/-! ### The check -/

/-- What a node depends on has a smaller index in a schedule. -/
theorem IsSchedule.idxOf_lt {order : List Nat} (h : IsSchedule g order) (hij : g.DependsOn i j) :
    order.idxOf j < order.idxOf i := by
  have hi : i ∈ order := h.1.mem_iff.mpr (List.mem_range.mpr hij.lt_length)
  obtain ⟨before, after, rfl, hbefore⟩ := List.eq_append_cons_of_mem hi
  have hj : j ∈ before := h.2 before i after rfl j (mem_next_iff.mpr hij)
  rw [List.idxOf_append_of_mem hj, List.idxOf_append_of_notMem hbefore]
  have := List.idxOf_lt_length_of_mem hj
  omega

/-- A graph that has a schedule has no cycle: whatever a node reaches is in front of it. -/
theorem IsSchedule.acyclic {order : List Nat} (h : IsSchedule g order) : g.Acyclic := by
  intro i hi
  have hlt : ∀ {k}, TransGen g.DependsOn i k → order.idxOf k < order.idxOf i := by
    intro k hk
    induction hk with
    | single hedge => exact h.idxOf_lt hedge
    | tail _ hedge ih => exact (h.idxOf_lt hedge).trans ih
  exact lt_irrefl _ (hlt hi)

/-- The check, with another bound on the length of paths. -/
def checkWithin (g : DependencyGraph) (bound : Nat) : Except Fault Unit :=
  match g.unknownNeed? with
  | some (node, need) => .error (.unknown node need)
  | none =>
    match visitAll (visit g bound []) (List.range g.length) [] with
    | .ok _ => .ok ()
    | .error cycle => .error (.cycle cycle)

/-- **The check ends of itself**: with any bound above the number of nodes, it is the same. -/
theorem checkWithin_eq_check (h : g.length < n) : g.checkWithin n = g.check := by
  have hwalk : visitAll (visit g n []) (List.range g.length) [] =
      visitAll (visit g (g.length + 1) []) (List.range g.length) [] :=
    visitAll_congr (fun i _ _ => visit_eq_visit (leads_nil g i) h (Nat.lt_succ_self _)) []
  have hcheck : g.check = g.checkWithin (g.length + 1) := rfl
  rw [hcheck, checkWithin, checkWithin, hwalk]

/-- What a fault says is so: a node needs what no node has the name of, or there is a cycle. -/
def Fault.IsFound (g : DependencyGraph) : Fault → Prop
  | .unknown name need => ∃ node ∈ g, node.name = name ∧ need ∈ node.needs ∧ ∀ j, ¬ g.StandsFor need j
  | .cycle nodes => g.IsCycle nodes

theorem isFound_of_unknownNeed? {name need : String} (h : g.unknownNeed? = some (name, need)) :
    (Fault.unknown name need).IsFound g := by
  obtain ⟨node, hnode, hfound⟩ := List.exists_of_findSome?_eq_some h
  obtain ⟨found, hneed, hpair⟩ := Option.map_eq_some_iff.mp hfound
  cases hpair
  refine ⟨node, hnode, rfl, List.mem_of_find?_eq_some hneed, fun j hj => ?_⟩
  have hnone := List.find?_some hneed
  rw [standsFor_iff.mp hj] at hnone
  cases hnone

/-- **What the check finds wrong is wrong.** -/
theorem isFound_of_check {fault : Fault} (h : g.check = .error fault) : fault.IsFound g := by
  rw [check] at h
  cases hunknown : g.unknownNeed? with
  | some pair =>
      rw [hunknown] at h
      cases h
      exact isFound_of_unknownNeed? hunknown
  | none =>
      rw [hunknown] at h
      cases hall : visitAll (visit g (g.length + 1) []) (List.range g.length) [] with
      | ok done =>
          simp only [hall] at h
          cases h
      | error found =>
          simp only [hall] at h
          cases h
          obtain ⟨i, -, done, hvisit⟩ := exists_visit_of_visitAll_eq_error hall
          exact isCycle_of_visit (leads_nil g i) (by simp) hvisit

/-- **The check succeeds exactly if every need is there and no node depends on itself**, directly or
through others. -/
theorem check_eq_ok_iff : g.check = .ok () ↔ g.Resolved ∧ g.Acyclic := by
  constructor
  · intro h
    obtain ⟨order, horder⟩ := exists_isSchedule_of_check h
    refine ⟨fun node hnode need hneed => ?_, horder.acyclic⟩
    obtain ⟨j, hj⟩ := Option.isSome_iff_exists.mp (indexOf?_isSome_of_check h hnode hneed)
    exact ⟨j, standsFor_iff.mpr hj⟩
  · rintro ⟨hresolved, hacyclic⟩
    cases hcheck : g.check with
    | ok u => rfl
    | error fault =>
        have hfound := isFound_of_check hcheck
        cases fault with
        | unknown name need =>
            obtain ⟨node, hnode, -, hneed, hnone⟩ := hfound
            obtain ⟨j, hj⟩ := hresolved node hnode need hneed
            exact absurd hj (hnone j)
        | cycle nodes =>
            obtain ⟨i, hi⟩ := IsCycle.exists_transGen hfound
            exact absurd hi (hacyclic i)

end PipelineExpansion.DependencyGraph

namespace PipelineExpansion.Pipeline

/-- **The check decides whether dependencies go round.** It ends of itself, since no bound above the
number of nodes changes it. It succeeds exactly if every need is the name of a node and no node can reach
itself. Where it fails, it names a need that is not there, or it gives the names of nodes, two at least,
of which each depends directly on the next, the last one being the first. -/
theorem checkGraph_decides (g : DependencyGraph) (kind noun : String) :
    (∀ bound, g.length < bound → g.checkWithin bound = g.check) ∧
      (checkGraph g kind noun = .ok () ↔ g.Resolved ∧ g.Acyclic) ∧
      ∀ d, checkGraph g kind noun = .error d →
        (∃ node ∈ g, ∃ need ∈ node.needs, (∀ j, ¬ g.StandsFor need j) ∧
          d = .meaning (kind ++ " '" ++ node.name ++ "' depends on unknown " ++ noun ++ " '" ++
            need ++ "'")) ∨
        ∃ nodes, g.IsCycle nodes ∧
          d = .meaning ("Detected dependency cycle: " ++ Text.join " -> " (g.namesOf nodes)) := by
  refine ⟨fun bound hbound => DependencyGraph.checkWithin_eq_check hbound, ?_, fun d hd => ?_⟩
  · rw [checkGraph, mapError_eq_ok]
    exact DependencyGraph.check_eq_ok_iff
  · rw [checkGraph] at hd
    cases hcheck : g.check with
    | ok u =>
        rw [hcheck] at hd
        cases hd
    | error fault =>
        rw [hcheck] at hd
        have hfound := DependencyGraph.isFound_of_check hcheck
        cases fault with
        | unknown name need =>
            cases hd
            obtain ⟨node, hnode, rfl, hneed, hnone⟩ := hfound
            exact .inl ⟨node, hnode, need, hneed, hnone, rfl⟩
        | cycle nodes =>
            cases hd
            exact .inr ⟨nodes, hfound, rfl⟩

/-- Three nodes, each of which needs another one. -/
def ring : DependencyGraph := [⟨"x", ["z"]⟩, ⟨"y", ["x"]⟩, ⟨"z", ["Y"]⟩]

theorem checkGraph_decides_ring :
    checkGraph ring "Job" "job" =
        .error (.meaning "Detected dependency cycle: x -> z -> y -> x") ∧
      (∃ nodes, ring.IsCycle nodes ∧ "Detected dependency cycle: x -> z -> y -> x" =
        "Detected dependency cycle: " ++ Text.join " -> " (ring.namesOf nodes)) ∧
      ¬ (ring.Resolved ∧ ring.Acyclic) := by
  have hcheck : checkGraph ring "Job" "job" =
      .error (.meaning "Detected dependency cycle: x -> z -> y -> x") := by decide +kernel
  obtain ⟨-, hok, hfault⟩ := checkGraph_decides ring "Job" "job"
  refine ⟨hcheck, ?_, fun h => ?_⟩
  · rcases hfault _ hcheck with ⟨node, hnode, need, hneed, hnone, -⟩ | ⟨nodes, hcycle, hmessage⟩
    · have hknown : ring.unknownNeed? = none := by decide +kernel
      obtain ⟨j, hj⟩ := DependencyGraph.unknownNeed?_eq_none_iff.mp hknown node hnode need hneed
      exact absurd hj (hnone j)
    · exact ⟨nodes, hcycle, congrArg Diagnostic.message hmessage⟩
  · rw [hok.mpr h] at hcheck
    cases hcheck

end PipelineExpansion.Pipeline
