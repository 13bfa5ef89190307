import Mathlib.Data.List.Nodup
import PipelineExpansion.Proofs.Dictionary
import PipelineExpansion.Proofs.Outcome
import PipelineExpansion.Proofs.Pipeline.ContainerReferences
import PipelineExpansion.Proofs.Pipeline.FileNumber
import PipelineExpansion.Proofs.Text.FreshName

/-!
# Merging pipelines

A pipeline takes over what belongs to the one that it extends, by a rule for each section. The stages are
those of the other pipeline. Its containers come behind the pipeline's own and take the place of those with
their alias, whatever the case of its letters. Resources of another kind are appended. Variables may come
from one side only.

## Main results

* `container?_mergeResources`: a container of the pipeline that is extended goes before one's own.
* `items?_mergeResources`: resources of another kind follow one's own.
* `merge_eq_ok`: all that merging does, where it succeeds.
-/

namespace PipelineExpansion.Pipeline

open Template (Token)

variable {containers own base : List Container} {container : Container}
  {other : Dictionary Token} {kind name : String} {r r' : Resources}

/-! ### Containers -/

/-- What a container takes the place of: other containers with its alias. -/
def Container.slot (c : Container) : Option String := c.aliasName.map Text.fold

/-- The first container in a place. -/
def containerAt? (containers : List Container) (slot : Option String) : Option Container :=
  containers.find? fun c => c.slot = slot

theorem Resources.container?_eq (r : Resources) (name : String) :
    r.container? name = containerAt? r.containers (some (Text.fold name)) := by
  unfold container? containerAt?
  congr 1
  funext c
  cases h : c.aliasName <;> simp [Container.slot, Text.sameName, h]

theorem addContainer_eq (h : container.slot ≠ none) (containers : List Container) :
    addContainer containers container =
      containers.filter (fun other => other.slot ≠ container.slot) ++ [container] := by
  obtain ⟨aliasName, halias⟩ : ∃ aliasName, container.aliasName = some aliasName :=
    Option.ne_none_iff_exists'.mp fun hnone => h (congrArg (Option.map Text.fold) hnone)
  have hkeep (other : Container) : (!other.aliasName.any (Text.sameName · aliasName)) =
      decide (other.slot ≠ container.slot) := by
    cases hother : other.aliasName <;> simp [Container.slot, Text.sameName, halias, hother]
  simp only [addContainer, halias, Option.getD_some, hkeep]

theorem containerAt?_addContainer (h : container.slot ≠ none) (containers : List Container)
    (slot : Option String) : containerAt? (addContainer containers container) slot =
      if container.slot = slot then some container else containerAt? containers slot := by
  rw [addContainer_eq h, containerAt?, List.find?_append]
  by_cases hslot : container.slot = slot
  · have hnone : (containers.filter fun other => other.slot ≠ container.slot).find?
        (fun c => c.slot = slot) = none := by
      simp [List.find?_eq_none, hslot]
    rw [hnone, if_pos hslot, Option.none_or, List.find?_cons_of_pos (by simpa using hslot)]
  · have hsome : (containers.filter fun other => other.slot ≠ container.slot).find?
        (fun c => c.slot = slot) = containerAt? containers slot := by
      rw [List.find?_filter]
      refine congrArg (List.find? · containers) (funext fun c => ?_)
      by_cases hc : c.slot = slot <;> simp [hc, Ne.symm hslot]
    rw [hsome, if_neg hslot, List.find?_cons_of_neg (by simpa using hslot), List.find?_nil,
      Option.or_none]

/-- Containers each in a place of its own. -/
structure Apart (containers : List Container) : Prop where
  aliased : ∀ c ∈ containers, c.slot ≠ none
  distinct : (containers.map Container.slot).Nodup

theorem Apart.rest (h : Apart (container :: containers)) : Apart containers where
  aliased c hc := h.aliased c (List.mem_cons_of_mem _ hc)
  distinct := (List.nodup_cons.mp h.distinct).2

theorem Apart.addContainer (h : Apart containers) (hslot : container.slot ≠ none) :
    Apart (addContainer containers container) := by
  rw [addContainer_eq hslot]
  refine ⟨fun c hc => ?_, ?_⟩
  · rcases List.mem_append.mp hc with hc | hc
    · exact h.aliased c (List.mem_of_mem_filter hc)
    · rw [List.mem_singleton.mp hc]
      exact hslot
  · have hkept : ((containers.filter fun other => other.slot ≠ container.slot).map
        Container.slot).Nodup := h.distinct.sublist (List.filter_sublist.map _)
    rw [List.map_append, List.map_singleton]
    refine hkept.append (List.nodup_singleton _) ?_
    intro slot hmem hsingle
    obtain ⟨c, hc, rfl⟩ := List.mem_map.mp hmem
    have hne : c.slot ≠ container.slot := by simpa using (List.mem_filter.mp hc).2
    exact hne (List.mem_singleton.mp hsingle)

/-- The containers that come behind go before those in their places. -/
theorem containerAt?_foldl_addContainer (hbase : Apart base) (own : List Container)
    (slot : Option String) : containerAt? (base.foldl addContainer own) slot =
      (containerAt? base slot).or (containerAt? own slot) := by
  induction base generalizing own with
  | nil => rfl
  | cons c rest ih =>
      have hslot : c.slot ≠ none := hbase.aliased c List.mem_cons_self
      rw [List.foldl_cons, ih hbase.rest, containerAt?_addContainer hslot]
      by_cases hsame : c.slot = slot
      · have hnone : containerAt? rest slot = none := by
          refine List.find?_eq_none.mpr fun other hother hslot => ?_
          have heq : c.slot = other.slot := hsame.trans (of_decide_eq_true hslot).symm
          exact (List.nodup_cons.mp hbase.distinct).1 (heq ▸ List.mem_map_of_mem hother)
        have hfirst : containerAt? (c :: rest) slot = some c :=
          List.find?_cons_of_pos (by simpa using hsame)
        rw [hnone, if_pos hsame, hfirst]
        rfl
      · have hother : containerAt? (c :: rest) slot = containerAt? rest slot :=
          List.find?_cons_of_neg (by simpa using hsame)
        rw [if_neg hsame, hother]

theorem Apart.foldl_addContainer (hown : Apart own) (hbase : ∀ c ∈ base, c.slot ≠ none) :
    Apart (base.foldl Pipeline.addContainer own) := by
  induction base generalizing own with
  | nil => exact hown
  | cons c rest ih =>
      obtain ⟨hc, hrest⟩ := List.forall_mem_cons.mp hbase
      exact ih (hown.addContainer hc) hrest

/-! ### Other kinds -/

/-- The resources of a kind that is a sequence. -/
def itemsOf? (other : Dictionary Token) (kind : String) : Option (List Token) :=
  (other.find? kind).bind Token.items?

/-- Kinds of resources, each of them a sequence. -/
structure Sequences (other : Dictionary Token) : Prop where
  canonical : other.Canonical
  isSome : ∀ e ∈ other, e.2.items?.isSome

theorem Sequences.exists_items (h : Sequences other) {t : Token} (ht : other.find? kind = some t) :
    ∃ items, t = .sequence t.origin items := by
  have hsome := h.isSome _ (Dictionary.mem_of_find?_eq_some ht)
  cases t <;> first | exact ⟨_, rfl⟩ | cases hsome

theorem Sequences.put (h : Sequences other) {t : Token} (ht : t.items?.isSome) :
    Sequences (other.put kind t) where
  canonical := h.canonical.put
  isSome e he := by
    rcases Dictionary.mem_put he with rfl | he
    · exact ht
    · exact h.isSome e he

theorem itemsOf?_put (other : Dictionary Token) (kind : String) (t : Token) (name : String) :
    itemsOf? (other.put kind t) name = if name = kind then t.items? else itemsOf? other name := by
  rw [itemsOf?, Dictionary.find?_put]
  split <;> rfl

/-- Resources of a kind follow those that are there already. -/
theorem itemsOf?_addOther {merged : Dictionary Token} (h : Sequences other) {added : Token}
    (hadded : added.items?.isSome) (hmerged : addOther other (kind, added) = .ok merged) :
    Sequences merged ∧ ∀ name, itemsOf? merged name =
      if name = kind then (itemsOf? other kind).merge (· ++ ·) added.items? else itemsOf? other name := by
  obtain ⟨items, hitems⟩ := Option.isSome_iff_exists.mp hadded
  cases hfound : other.find? kind with
  | none =>
      have hput : addOther other (kind, added) = .ok (other.put kind added) := by
        simp only [addOther, hfound]
      obtain rfl : other.put kind added = merged := Except.ok.inj (hput.symm.trans hmerged)
      have hnone : itemsOf? other kind = none := by rw [itemsOf?, hfound]; rfl
      refine ⟨h.put hadded, fun name => ?_⟩
      rw [itemsOf?_put, hnone, Option.merge_none_left]
  | some present =>
      obtain ⟨before, hbefore⟩ := h.exists_items hfound
      have hpresent : itemsOf? other kind = some before := by
        rw [itemsOf?, hfound, hbefore]
        rfl
      have hput : addOther other (kind, added) =
          .ok (other.put kind (.sequence present.origin (before ++ items))) := by
        rw [hbefore] at hfound
        simp only [addOther, hfound, Token.expectSequence, hitems]
        rfl
      obtain rfl := Except.ok.inj (hput.symm.trans hmerged)
      refine ⟨h.put rfl, fun name => ?_⟩
      rw [itemsOf?_put, hpresent, hitems]
      rfl

theorem itemsOf?_cons (kind : String) (t : Token) (rest : Dictionary Token) (name : String) :
    itemsOf? ((kind, t) :: rest) name = if name = kind then t.items? else itemsOf? rest name := by
  rw [itemsOf?, Dictionary.find?, List.lookup_cons]
  by_cases hname : name = kind
  · simp [hname]
  · simp [hname, beq_false_of_ne hname, itemsOf?, Dictionary.find?]

/-- **Resources of each kind follow those that are there already.** -/
theorem itemsOf?_foldlM_addOther {added merged : Dictionary Token} (h : Sequences other)
    (hadded : Sequences added) (hmerged : added.foldlM addOther other = .ok merged) :
    Sequences merged ∧ ∀ name, itemsOf? merged name =
      (itemsOf? other name).merge (· ++ ·) (itemsOf? added name) := by
  induction added generalizing other with
  | nil =>
      cases hmerged
      exact ⟨h, fun name => Option.merge_none_right.symm⟩
  | cons e rest ih =>
      obtain ⟨kind, t⟩ := e
      obtain ⟨hhead, hcanonical⟩ := List.pairwise_cons.mp hadded.canonical
      obtain ⟨ht, hrest⟩ := List.forall_mem_cons.mp hadded.isSome
      rw [List.foldlM_cons, bind_eq_ok] at hmerged
      obtain ⟨first, hfirst, hmerged⟩ := hmerged
      obtain ⟨hsequences, hitems⟩ := itemsOf?_addOther h ht hfirst
      obtain ⟨hall, hothers⟩ := ih hsequences ⟨hcanonical, hrest⟩ hmerged
      refine ⟨hall, fun name => ?_⟩
      rw [hothers, hitems, itemsOf?_cons]
      by_cases hname : name = kind
      · have hnone : itemsOf? rest kind = none := by
          cases hfound : Dictionary.find? rest kind with
          | none => rw [itemsOf?, hfound]; rfl
          | some t =>
              exact absurd (hhead _ (Dictionary.mem_of_find?_eq_some hfound)) (String.lt_irrefl _)
        rw [if_pos hname, if_pos hname, hname, hnone, Option.merge_none_right]
      · rw [if_neg hname, if_neg hname]

/-! ### Resources -/

/-- The resources of a kind other than containers. -/
def Resources.items? (r : Resources) (kind : String) : Option (List Token) := itemsOf? r.other kind

/-- Resources whose containers are apart and whose other kinds are sequences. -/
structure Resources.Orderly (r : Resources) : Prop where
  apart : Apart r.containers
  sequences : Sequences r.other

theorem ensures_resourceContainer (t : Token) :
    Ensures (resourceContainer t) fun c => c.slot ≠ none := by
  refine ensures_bind_of_forall fun entries => ?_
  cases entries with
  | nil => exact ensures_error _ _
  | cons e rest =>
      exact ensures_bind_of_forall fun _ => ensures_bind_of_forall fun _ => ensures_pure (nofun)

/-- Container resources have aliases, and no other kind is there twice. -/
theorem Resources.ensures_ofToken? (t : Token) : Ensures (Resources.ofToken? t) fun r =>
    (∀ c ∈ r.containers, c.slot ≠ none) ∧ r.other.Canonical := by
  have hcontainers (items : List Token) :
      Ensures (items.mapM resourceContainer) fun containers => ∀ c ∈ containers, c.slot ≠ none := by
    induction items with
    | nil => exact ensures_pure (List.forall_mem_nil _)
    | cons t rest ih =>
        rw [List.mapM_cons]
        refine (ensures_resourceContainer t).bind fun c hc => ih.bind fun others hothers => ?_
        exact ensures_pure (List.forall_mem_cons.mpr ⟨hc, hothers⟩)
  refine ensures_bind_of_forall fun entries => ensures_foldlM (fun r e hr => ?_)
    ⟨List.forall_mem_nil _, Dictionary.canonical_nil⟩ entries
  unfold Resources.read
  split
  · refine ensures_bind_of_forall fun items => (hcontainers items).bind fun containers hall => ?_
    exact ensures_pure ⟨hall, hr.2⟩
  · exact ensures_ok ⟨hr.1, hr.2.put⟩

/-- The numbers of files do not matter for what resources are there. -/
theorem Resources.items?_bare (r : Resources) (kind : String) :
    r.bare.items? kind = (r.items? kind).map (List.map Token.bare) := by
  have hfind : Dictionary.find? r.bare.other kind = (r.other.find? kind).map Token.bare :=
    Dictionary.find?_map Token.bare r.other kind
  rw [items?, itemsOf?, hfind, items?, itemsOf?]
  cases r.other.find? kind <;> simp

theorem Resources.Orderly.bare (h : r.Orderly) : r.bare.Orderly where
  apart := h.apart
  sequences :=
    { canonical := List.pairwise_map.mpr h.sequences.canonical
      isSome := by
        intro e he
        obtain ⟨⟨kind, t⟩, hmem, rfl⟩ := List.mem_map.mp he
        simpa using h.sequences.isSome _ hmem }

section Resources

variable {own base merged : Resources} (hown : own.Orderly) (hbase : base.Orderly)
  (hmerged : mergeResources own base = .ok merged)

include hmerged

theorem mergeResources_eq_ok : merged.containers = base.containers.foldl addContainer own.containers ∧
    base.other.foldlM addOther own.other = .ok merged.other := by
  unfold mergeResources at hmerged
  obtain ⟨other, hother, hpure⟩ := bind_eq_ok.mp hmerged
  cases hpure
  exact ⟨rfl, hother⟩

include hown hbase

theorem orderly_mergeResources : merged.Orderly := by
  obtain ⟨hcontainers, hother⟩ := mergeResources_eq_ok hmerged
  refine ⟨?_, (itemsOf?_foldlM_addOther hown.sequences hbase.sequences hother).1⟩
  rw [hcontainers]
  exact hown.apart.foldl_addContainer hbase.apart.aliased

omit hown in
/-- A container of the pipeline that is extended goes before one's own. -/
theorem container?_mergeResources (name : String) :
    merged.container? name = (base.container? name).or (own.container? name) := by
  rw [Resources.container?_eq, (mergeResources_eq_ok hmerged).1,
    containerAt?_foldl_addContainer hbase.apart, Resources.container?_eq, Resources.container?_eq]

/-- Resources of another kind follow one's own. -/
theorem items?_mergeResources (kind : String) :
    merged.items? kind = (own.items? kind).merge (· ++ ·) (base.items? kind) :=
  (itemsOf?_foldlM_addOther hown.sequences hbase.sequences (mergeResources_eq_ok hmerged).2).2 kind

end Resources

/-! ### Pipelines -/

/-- All resources of a pipeline; none if there is no section for them. -/
def allResources (p : Pipeline) : Resources := p.resources.getD {}

/-- **All that merging does.** -/
theorem merge_eq_ok {p base merged : Pipeline} (h : p.merge base = .ok merged) :
    merged.stages = base.stages ∧ (p.vars = none ∨ base.vars = none) ∧
      merged.vars = base.vars.or p.vars ∧ (merged.resources = none → base.resources = none) ∧
      mergeResources p.allResources base.allResources = .ok merged.allResources := by
  rcases p with ⟨_, vars, resources, _⟩
  rcases base with ⟨_, baseVars, baseResources, _⟩
  cases baseResources with
  | none => cases vars <;> cases baseVars <;> cases h <;> exact ⟨rfl, by simp, rfl, fun _ => rfl, rfl⟩
  | some r =>
      unfold merge at h
      obtain ⟨both, hboth, h⟩ := bind_eq_ok.mp h
      cases hr : mergeResources (resources.getD {}) r with
      | error d =>
          rw [hr] at hboth
          cases hboth
      | ok new =>
          rw [hr] at hboth
          cases hboth
          cases vars <;> cases baseVars <;> cases h <;> exact ⟨rfl, by simp, rfl, nofun, hr⟩

end PipelineExpansion.Pipeline
