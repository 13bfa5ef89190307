import Mathlib.Data.Finmap
import Mathlib.Data.List.Induction
import PipelineExpansion.Proofs.Task.Inputs

/-!
# Inputs are a finite map of folded names

Inputs keep a spelling, a folded name and a value together, and a change may touch one of them and leave
another. What can be asked of them is nevertheless what can be asked of a finite map from folded names to
values to which the same has been done (`AnswersAs`). The spelling is all they hold beyond that, and it
goes back to one insertion of the history: the one that found no input of its name, with no removal since
(`Created`).

A history is a list of single changes, and inputs that are extended undergo one for each pair. All that is
said of inputs is carried from one change to the next (`Refines.perform`), by induction from the end of
the history.

## Main results

* `created_unique`: an input goes back to one insertion.
* `run_refines`: inputs after any operations, compared with a finite map.
-/

namespace PipelineExpansion.Task

/-- A change of a single input. -/
inductive Change where
  | insert (name value : String)
  | remove (name : String)
deriving DecidableEq, Repr

/-- What may be done to inputs. -/
inductive Operation where
  | change (c : Change)
  | extend (pairs : List (String × String))
deriving DecidableEq, Repr

/-- Values by folded names, as a map that knows nothing of spellings. -/
abbrev Reference := Finmap fun _ : String => String

/-- Makes a change of inputs. -/
def Change.perform (i : Inputs) : Change → Inputs
  | insert name value => (i.getThenInsert? name value).2
  | remove name => (i.getThenRemove? name).2

/-- Makes a change of the values by folded names. -/
def Change.apply (m : Reference) : Change → Reference
  | insert name value => m.insert (Text.fold name) value
  | remove name => m.erase (Text.fold name)

namespace Operation

/-- Does something to inputs. -/
def perform (i : Inputs) : Operation → Inputs
  | change c => c.perform i
  | extend pairs => i.insertAll pairs

/-- Does the same to the values by folded names. -/
def apply (m : Reference) : Operation → Reference
  | change c => c.apply m
  | extend pairs => pairs.foldl (fun m p => m.insert (Text.fold p.1) p.2) m

/-- The changes of single inputs that are made. -/
def changes : Operation → List Change
  | change c => [c]
  | extend pairs => pairs.map fun p => .insert p.1 p.2

end Operation

namespace Inputs

/-- The inputs after some operations, of which there were none before. -/
def run (ops : List Operation) : Inputs := ops.foldl Operation.perform ∅

/-- The values by folded names after the same operations. -/
def reference (ops : List Operation) : Reference := ops.foldl Operation.apply ∅

/-- The inputs after some changes. -/
def after (history : List Change) : Inputs := history.foldl Change.perform ∅

/-- The values by folded names after some changes. -/
def valuesAfter (history : List Change) : Reference := history.foldl Change.apply ∅

/-- An input has its spelling from an insertion of the history: one that found no input of its name, which
has not been removed since. -/
def Created (history : List Change) (spelling : String) : Prop :=
  ∃ before value later, history = before ++ .insert spelling value :: later ∧
    Text.fold spelling ∉ valuesAfter before ∧
    ∀ name, Text.fold name = Text.fold spelling → .remove name ∉ later

variable {i : Inputs} {history later : List Change} {c : Change} {name spelling value : String}

/-! ### Insertion and removal -/

theorem getThenInsert?_eq (i : Inputs) (name value : String) :
    i.getThenInsert? name value = (i.get? name, i.insert name value) := by
  rw [getThenInsert?, get?, insert]
  cases i.entries.find? (Text.fold name) <;> rfl

theorem getThenRemove?_eq (i : Inputs) (name : String) :
    i.getThenRemove? name = (i.get? name, i.remove name) := rfl

/-- A removal is seen under all names that fold to its own. -/
theorem find?_values_remove (i : Inputs) (name n : String) :
    (i.remove name).values.find? n =
      if n = Text.fold name then none else i.values.find? n := by
  rw [values, values, Dictionary.find?_map, Dictionary.find?_map, remove, Dictionary.find?_remove]
  split <;> rfl

theorem find?_values_insert (i : Inputs) (name value n : String) :
    (i.insert name value).values.find? n =
      if n = Text.fold name then some value else i.values.find? n := by
  rw [values, values, Dictionary.find?_map, Dictionary.find?_map, insert, Dictionary.find?_put]
  split <;> rfl

theorem Named.remove (h : i.Named) (name : String) : (i.remove name).Named where
  canonical := h.canonical.remove _
  folded e he := h.folded e (Dictionary.mem_remove.mp he).1

/-! ### Operations are made of changes -/

theorem perform_eq_foldl :
    Operation.perform = fun i op => op.changes.foldl Change.perform i := by
  funext i op
  cases op with
  | change c => rfl
  | extend pairs =>
      rw [Operation.perform, Operation.changes, List.foldl_map, insertAll]
      simp only [Change.perform, getThenInsert?_eq]

theorem apply_eq_foldl :
    Operation.apply = fun m op => op.changes.foldl Change.apply m := by
  funext m op
  cases op with
  | change c => rfl
  | extend pairs =>
      rw [Operation.apply, Operation.changes, List.foldl_map]
      rfl

theorem run_eq_after (ops : List Operation) : run ops = after (ops.flatMap Operation.changes) := by
  rw [run, after, perform_eq_foldl, List.foldl_flatMap]

theorem reference_eq_valuesAfter (ops : List Operation) :
    reference ops = valuesAfter (ops.flatMap Operation.changes) := by
  rw [reference, valuesAfter, apply_eq_foldl, List.foldl_flatMap]

/-! ### The insertion that an input goes back to -/

/-- A value stays under a name that is not removed. -/
theorem mem_foldl_apply {m : Reference} (hmem : Text.fold spelling ∈ m)
    (hkept : ∀ name, Text.fold name = Text.fold spelling → .remove name ∉ later) :
    Text.fold spelling ∈ later.foldl Change.apply m := by
  induction later generalizing m with
  | nil => exact hmem
  | cons c rest ih =>
      refine ih ?_ fun name hname hrest => hkept name hname (List.mem_cons_of_mem _ hrest)
      cases c with
      | insert name value => exact Finmap.mem_insert.mpr (.inr hmem)
      | remove name =>
          exact Finmap.mem_erase.mpr ⟨fun heq => hkept name heq.symm List.mem_cons_self, hmem⟩

/-- Behind an insertion there is an input until it is removed. -/
theorem mem_valuesAfter_insert (before : List Change) (value : String)
    (hkept : ∀ name, Text.fold name = Text.fold spelling → .remove name ∉ later) :
    Text.fold spelling ∈ valuesAfter (before ++ .insert spelling value :: later) := by
  rw [valuesAfter, List.foldl_append, List.foldl_cons]
  exact mem_foldl_apply (Finmap.mem_insert.mpr (.inl rfl)) hkept

/-- **An input goes back to one insertion.** -/
theorem created_unique {spelling' : String} (h : Created history spelling)
    (h' : Created history spelling') (hfold : Text.fold spelling = Text.fold spelling') :
    spelling = spelling' := by
  obtain ⟨before, value, later, rfl, habsent, hkept⟩ := h
  obtain ⟨before', value', later', heq, habsent', hkept'⟩ := h'
  -- Of two insertions the one behind would have found an input of its name.
  rcases List.append_eq_append_iff.mp heq with ⟨between, rfl, hrest⟩ | ⟨between, rfl, hrest⟩
  · rcases between with _ | ⟨c, between⟩
    · exact (Change.insert.inj (List.cons.inj hrest).1).1
    · obtain ⟨rfl, rfl⟩ := List.cons.inj hrest
      refine absurd (mem_valuesAfter_insert before value fun name hname hmem => ?_) (hfold ▸ habsent')
      exact hkept name hname (List.mem_append_left _ hmem)
  · rcases between with _ | ⟨c, between⟩
    · exact (Change.insert.inj (List.cons.inj hrest).1).1.symm
    · obtain ⟨rfl, rfl⟩ := List.cons.inj hrest
      refine absurd (mem_valuesAfter_insert before' value' fun name hname hmem => ?_) (hfold ▸ habsent)
      exact hkept' name hname (List.mem_append_left _ hmem)

/-- An input keeps its spelling where its name is not removed. -/
theorem Created.append_singleton (h : Created history spelling)
    (hkept : ∀ name, Text.fold name = Text.fold spelling → c ≠ .remove name) :
    Created (history ++ [c]) spelling := by
  obtain ⟨before, value, later, rfl, habsent, hlater⟩ := h
  refine ⟨before, value, later ++ [c], by simp, habsent, fun name hname hmem => ?_⟩
  rcases List.mem_append.mp hmem with hmem | hmem
  · exact hlater name hname hmem
  · exact hkept name hname (List.mem_singleton.mp hmem).symm

/-! ### Every change keeps inputs and map together -/

/-- Inputs hold the values of a map, in order, and their spellings come from a history. -/
structure Refines (history : List Change) (i : Inputs) (m : Reference) : Prop where
  named : i.Named
  values : ∀ n, i.values.find? n = m.lookup n
  created : ∀ e ∈ i.entries, Created history e.2.1

theorem refines_empty : Refines [] ∅ ∅ := ⟨named_empty, fun _ => rfl, nofun⟩

theorem Refines.insert (h : Refines history i (valuesAfter history)) (name value : String) :
    Refines (history ++ [.insert name value]) (i.insert name value)
      ((valuesAfter history).insert (Text.fold name) value) where
  named := h.named.insert
  values n := by
    rw [find?_values_insert, h.values]
    split
    · next heq => rw [heq, Finmap.lookup_insert]
    · next hne => rw [Finmap.lookup_insert_of_ne _ hne]
  created e he := by
    have hkeep {s : String} (hs : Created history s) :
        Created (history ++ [.insert name value]) s := hs.append_singleton fun _ _ => nofun
    rcases Dictionary.mem_put he with rfl | hmem
    · cases hfind : i.entries.find? (Text.fold name) with
      | some found => exact hkeep (h.created (_, found) (Dictionary.mem_of_find?_eq_some hfind))
      | none =>
          have habsent : Text.fold name ∉ valuesAfter history := by
            rw [← Finmap.lookup_eq_none, ← h.values, Inputs.values, Dictionary.find?_map, hfind]
            rfl
          exact ⟨history, value, [], rfl, habsent, fun _ _ => List.not_mem_nil⟩
    · exact hkeep (h.created e hmem)

theorem Refines.remove {m : Reference} (h : Refines history i m) (name : String) :
    Refines (history ++ [.remove name]) (i.remove name) (m.erase (Text.fold name)) where
  named := h.named.remove name
  values n := by
    rw [find?_values_remove, h.values]
    split
    · next heq => rw [heq, Finmap.lookup_erase]
    · next hne => rw [Finmap.lookup_erase_ne hne]
  created e he := by
    obtain ⟨hmem, hne⟩ := Dictionary.mem_remove.mp he
    refine (h.created e hmem).append_singleton ?_
    rintro n hn ⟨⟩
    exact hne ((h.named.folded e hmem).trans hn.symm)

/-- **A change keeps inputs and map together.** -/
theorem Refines.perform (h : Refines history i (valuesAfter history)) (c : Change) :
    Refines (history ++ [c]) (c.perform i) (c.apply (valuesAfter history)) := by
  cases c with
  | insert name value =>
      rw [Change.perform, getThenInsert?_eq]
      exact h.insert name value
  | remove name => exact h.remove name

theorem refines_after (history : List Change) :
    Refines history (after history) (valuesAfter history) := by
  induction history using List.reverseRecOn with
  | nil => exact refines_empty
  | append_singleton history c ih =>
      rw [after, valuesAfter, List.foldl_append, List.foldl_append]
      exact ih.perform c

/-! ### What is asked of inputs -/

/-- Inputs answer as values by folded names do; what is inserted or removed is answered with the value
before. -/
structure AnswersAs (i : Inputs) (m : Reference) : Prop where
  get? : ∀ name, i.get? name = m.lookup (Text.fold name)
  contains : ∀ name, i.contains name = true ↔ Text.fold name ∈ m
  size : i.size = m.keys.card
  insert : ∀ name value, (i.getThenInsert? name value).1 = m.lookup (Text.fold name)
  remove : ∀ name, (i.getThenRemove? name).1 = m.lookup (Text.fold name)

variable {m : Reference}

/-- The folded names are the names of the map. -/
theorem Refines.mem_names_iff (h : Refines history i m) {n : String} :
    n ∈ i.entries.names ↔ n ∈ m := by
  rw [← Finmap.lookup_isSome, ← h.values, Inputs.values, Dictionary.find?_map, Option.isSome_map]
  exact Dictionary.has_iff.symm

theorem Refines.answersAs (h : Refines history i m) : i.AnswersAs m := by
  have hget : ∀ name, i.get? name = m.lookup (Text.fold name) := fun name => by
    rw [get?_eq_find?_values, h.values]
  refine ⟨hget, fun name => ?_, ?_, fun name value => ?_, hget⟩
  · rw [contains_eq, hget, Finmap.lookup_isSome]
  · have hkeys : i.entries.names.toFinset = m.keys := by
      ext n
      rw [List.mem_toFinset, h.mem_names_iff, Finmap.mem_keys]
    rw [size, ← hkeys, List.toFinset_card_of_nodup h.named.canonical.nodup_names, Dictionary.names,
      List.length_map]
  · rw [getThenInsert?_eq, hget]

/-- What is listed are the values of the map, each under the spelling that its input was created with. -/
theorem Refines.mem_toList_iff (h : Refines history i m) :
    (spelling, value) ∈ i.toList ↔
      Created history spelling ∧ m.lookup (Text.fold spelling) = some value := by
  have hfind : ∀ n v, m.lookup n = some v ↔ ∃ s, (n, s, v) ∈ i.entries := by
    intro n v
    rw [← h.values, Inputs.values, Dictionary.find?_map, Option.map_eq_some_iff]
    simp only [h.named.canonical.find?_eq_some_iff]
    exact ⟨fun ⟨p, hp, hv⟩ => ⟨p.1, hv ▸ hp⟩, fun ⟨s, hs⟩ => ⟨(s, v), hs, rfl⟩⟩
  rw [toList, List.mem_map, hfind]
  constructor
  · rintro ⟨⟨n, _, _⟩, he, ⟨⟩⟩
    obtain rfl : n = Text.fold spelling := h.named.folded _ he
    exact ⟨h.created _ he, spelling, he⟩
  · rintro ⟨hcreated, s, hs⟩
    obtain rfl := created_unique hcreated (h.created _ hs) (h.named.folded _ hs)
    exact ⟨_, hs, rfl⟩

/-- Inputs are listed in the order of their folded names. -/
theorem Named.sorted_toList (h : i.Named) :
    i.toList.Pairwise fun a b => Text.fold a.1 < Text.fold b.1 := by
  rw [toList, List.pairwise_map]
  refine (List.Pairwise.and_mem.mp h.canonical).imp fun hab => ?_
  obtain ⟨ha, hb, hlt⟩ := hab
  rwa [← h.folded _ ha, ← h.folded _ hb]

/-- **Inputs are a finite map of folded names**, whatever has been done to them. They answer as the map
does; they are listed in the order of the folded names, each under the spelling of the insertion that
created it; and they are equal to other inputs exactly if both give the same answer for every name. -/
theorem run_refines (ops : List Operation) :
    (run ops).AnswersAs (reference ops) ∧
      ((run ops).toList.Pairwise fun a b => Text.fold a.1 < Text.fold b.1) ∧
      (∀ spelling value, (spelling, value) ∈ (run ops).toList ↔
        Created (ops.flatMap Operation.changes) spelling ∧
          (reference ops).lookup (Text.fold spelling) = some value) ∧
      ∀ ops', (run ops == run ops') = true ↔ ∀ name, (run ops).get? name = (run ops').get? name := by
  have hrefines (ops : List Operation) :
      Refines (ops.flatMap Operation.changes) (run ops) (reference ops) := by
    rw [run_eq_after, reference_eq_valuesAfter]
    exact refines_after _
  have h := hrefines ops
  exact ⟨h.answersAs, h.named.sorted_toList, fun _ _ => h.mem_toList_iff,
    fun ops' => h.named.beq_iff (hrefines ops').named⟩

end Inputs
end PipelineExpansion.Task
