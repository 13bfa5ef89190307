import PipelineExpansion.Proofs.Dictionary
import PipelineExpansion.Proofs.Text.FreshName
import PipelineExpansion.Task.Inputs

/-!
# Inputs are found under their folded names

Inputs that are built by `insert` are kept under the folded forms of their spellings, in order
(`Named`). Such inputs are built again from their spellings and values, in whatever order they
come.

## Main results

* `get?_insert`: a change is seen under all names that fold to its own.
* `ofList_eq_of_perm`: inputs are built again from what they are written as.
* `ofList_perm`, `beq_ofList_of_perm`: in which order inputs are given makes no difference.
-/

namespace PipelineExpansion.Task.Inputs

variable {i : Inputs} {name value : String}

/-- Inputs in order, each under the folded form of its spelling. -/
structure Named (i : Inputs) : Prop where
  canonical : i.entries.Canonical
  folded : ∀ e ∈ i.entries, e.1 = Text.fold e.2.1

theorem named_empty : Named ∅ := ⟨Dictionary.canonical_nil, nofun⟩

/-- A change is seen under all names that fold to its own. -/
theorem get?_insert (i : Inputs) (name value n : String) :
    (i.insert name value).get? n =
      if Text.fold n = Text.fold name then some value else i.get? n := by
  rw [get?, insert, Dictionary.find?_put]
  split <;> rfl

theorem contains_eq (i : Inputs) (name : String) : i.contains name = (i.get? name).isSome := by
  rw [contains, get?, Option.isSome_map]
  rfl

theorem Named.insert (h : i.Named) : (i.insert name value).Named := by
  refine ⟨h.canonical.put, fun e he => ?_⟩
  rcases Dictionary.mem_put he with rfl | hmem
  · simp only
    cases hfind : i.entries.find? (Text.fold name) with
    | none => rfl
    | some found => exact h.folded _ (Dictionary.mem_of_find?_eq_some hfind)
  · exact h.folded e hmem

theorem Named.insertAll (pairs : List (String × String)) (h : i.Named) :
    (i.insertAll pairs).Named := by
  induction pairs generalizing i with
  | nil => exact h
  | cons p rest ih => exact ih h.insert

/-- The entries that new inputs are kept in. -/
def keyed (pairs : List (String × String)) : Dictionary (String × String) :=
  pairs.map fun p => (Text.fold p.1, p)

/-- An input with a new name is kept in its own spelling. -/
theorem insert_of_notMem (value : String) (h : Text.fold name ∉ i.entries.names) :
    i.insert name value = ⟨i.entries.put (Text.fold name) (name, value)⟩ := by
  have hnone : i.entries.find? (Text.fold name) = none := by
    rw [← Dictionary.has_iff, Dictionary.has, Option.not_isSome_iff_eq_none] at h
    exact h
  rw [insert, hnone]
  rfl

/-- Inputs whose names differ by more than case are kept in their own spellings. -/
theorem insertAll_eq {pairs : List (String × String)}
    (hnew : ∀ p ∈ pairs, Text.fold p.1 ∉ i.entries.names)
    (h : pairs.Pairwise fun a b => Text.fold a.1 ≠ Text.fold b.1) :
    i.insertAll pairs
      = ⟨(keyed pairs).foldl (fun d e => Dictionary.put d e.1 e.2) i.entries⟩ := by
  induction pairs generalizing i with
  | nil => rfl
  | cons p rest ih =>
      obtain ⟨hp, hrest⟩ := List.forall_mem_cons.mp hnew
      obtain ⟨hhead, htail⟩ := List.pairwise_cons.mp h
      have hinsert := insert_of_notMem p.2 hp
      have hih := ih (i := i.insert p.1 p.2) (fun q hq hmem => ?_) htail
      · rw [insertAll, List.foldl_cons, ← insertAll, hih, hinsert]
        rfl
      · rw [hinsert] at hmem
        rcases Dictionary.mem_names_put hmem with heq | hmem
        · exact hhead q hq heq.symm
        · exact hrest q hq hmem

/-- **Inputs are built again from what they are written as**, in whatever order that comes. -/
theorem ofList_eq_of_perm {pairs : List (String × String)} (h : i.Named)
    (hperm : pairs.Perm i.toList) : ofList pairs = i := by
  have hkeyed : keyed i.toList = i.entries := by
    rw [keyed, toList, List.map_map]
    refine (List.map_congr_left fun e he => ?_).trans (List.map_id _)
    exact Prod.ext (h.folded e he).symm rfl
  have hperm' : (keyed pairs).Perm i.entries := hkeyed ▸ hperm.map _
  have hpairs : pairs.Pairwise fun a b => Text.fold a.1 ≠ Text.fold b.1 := by
    have hnames : (keyed pairs).Pairwise fun a b => a.1 ≠ b.1 :=
      hperm'.symm.pairwise (h.canonical.imp ne_of_lt) Ne.symm
    rwa [keyed, List.pairwise_map] at hnames
  have hnew : ∀ p ∈ pairs, Text.fold p.1 ∉ (∅ : Inputs).entries.names :=
    fun _ _ hmem => nomatch hmem
  rw [ofList, insertAll_eq hnew hpairs]
  exact congrArg Inputs.mk (Dictionary.ofEntries_eq_of_perm h.canonical hperm')

/-- The names of inputs differ by more than case. -/
theorem Named.pairwise_toList (h : i.Named) :
    i.toList.Pairwise fun a b => Text.fold a.1 ≠ Text.fold b.1 := by
  rw [toList, List.pairwise_map]
  refine (List.Pairwise.and_mem.mp h.canonical).imp fun ⟨ha, hb, hlt⟩ => ?_
  rw [← h.folded _ ha, ← h.folded _ hb]
  exact ne_of_lt hlt

/-! ### Several inputs at once -/

theorem insertAll_append (i : Inputs) (pairs more : List (String × String)) :
    i.insertAll (pairs ++ more) = (i.insertAll pairs).insertAll more := List.foldl_append

theorem get?_insertAll_of_forall_ne {pairs : List (String × String)} {n : String}
    (h : ∀ p ∈ pairs, Text.fold n ≠ Text.fold p.1) : (i.insertAll pairs).get? n = i.get? n := by
  induction pairs generalizing i with
  | nil => rfl
  | cons p rest ih =>
      obtain ⟨hp, hrest⟩ := List.forall_mem_cons.mp h
      rw [insertAll, List.foldl_cons, ← insertAll, ih hrest, get?_insert, if_neg hp]

theorem get?_insertAll_of_mem {pairs : List (String × String)} {p : String × String}
    (hp : p ∈ pairs) (h : pairs.Pairwise fun a b => Text.fold a.1 ≠ Text.fold b.1) :
    (i.insertAll pairs).get? p.1 = some p.2 := by
  induction pairs generalizing i with
  | nil => cases hp
  | cons q rest ih =>
      obtain ⟨hhead, htail⟩ := List.pairwise_cons.mp h
      rw [insertAll, List.foldl_cons, ← insertAll]
      rcases List.mem_cons.mp hp with rfl | hmem
      · rw [get?_insertAll_of_forall_ne hhead, get?_insert, if_pos rfl]
      · exact ih hmem htail

/-- The folded names of inputs are those of what was given. -/
theorem mem_names_insertAll {pairs : List (String × String)} {n : String}
    (h : n ∈ (i.insertAll pairs).entries.names) :
    n ∈ i.entries.names ∨ ∃ p ∈ pairs, n = Text.fold p.1 := by
  induction pairs generalizing i with
  | nil => exact .inl h
  | cons p rest ih =>
      rw [insertAll, List.foldl_cons, ← insertAll] at h
      rcases ih h with hinsert | ⟨q, hq, rfl⟩
      · rcases Dictionary.mem_names_put hinsert with rfl | hmem
        · exact .inr ⟨p, List.mem_cons_self, rfl⟩
        · exact .inl hmem
      · exact .inr ⟨q, List.mem_cons_of_mem _ hq, rfl⟩

/-! ### Equality -/

/-- The values of inputs by their folded names. -/
def values (i : Inputs) : Dictionary String := i.entries.map fun e => (e.1, e.2.2)

theorem get?_eq_find?_values (i : Inputs) (name : String) :
    i.get? name = i.values.find? (Text.fold name) :=
  (Dictionary.find?_map Prod.snd i.entries _).symm

theorem Named.canonical_values (h : i.Named) : i.values.Canonical :=
  List.pairwise_map.mpr h.canonical

/-- A value is under a folded name. -/
theorem Named.exists_fold_eq {n v : String} (h : i.Named) (hv : i.values.find? n = some v) :
    ∃ name, Text.fold name = n := by
  obtain ⟨e, he, heq⟩ := List.mem_map.mp (Dictionary.mem_of_find?_eq_some hv)
  exact ⟨e.2.1, (h.folded e he).symm.trans (congrArg Prod.fst heq)⟩

theorem beq_iff_values {i' : Inputs} : (i == i') = true ↔ i.values = i'.values := by
  change (i.values == i'.values) = true ↔ _
  exact beq_iff_eq

/-- **Inputs are equal when the same is found in them.** -/
theorem Named.beq_iff {i' : Inputs} (h : i.Named) (h' : i'.Named) :
    (i == i') = true ↔ ∀ name, i.get? name = i'.get? name := by
  simp only [beq_iff_values, get?_eq_find?_values]
  refine ⟨fun heq name => by rw [heq], fun hfind => ?_⟩
  refine h.canonical_values.ext h'.canonical_values fun n => ?_
  cases hv : i.values.find? n with
  | some v =>
      obtain ⟨name, rfl⟩ := h.exists_fold_eq hv
      rw [← hfind, hv]
  | none =>
      cases hv' : i'.values.find? n with
      | none => rfl
      | some v =>
          obtain ⟨name, rfl⟩ := h'.exists_fold_eq hv'
          rw [← hfind, hv] at hv'
          cases hv'

/-! ### Inputs in another order -/

/-- A name that is folded, with a value. -/
def foldName (p : String × String) : String × String := (Text.fold p.1, p.2)

theorem pairwise_map_foldName {pairs : List (String × String)} :
    (pairs.map foldName).Pairwise (fun a b => a.1 ≠ b.1) ↔
      pairs.Pairwise fun a b => Text.fold a.1 ≠ Text.fold b.1 := List.pairwise_map

/-- What is found in inputs is what was given, if no name was given twice. -/
theorem get?_ofList_eq_some_iff {pairs : List (String × String)}
    (h : pairs.Pairwise fun a b => Text.fold a.1 ≠ Text.fold b.1) :
    (ofList pairs).get? name = some value ↔ (Text.fold name, value) ∈ pairs.map foldName := by
  have hsame : ∀ {p : String × String}, Text.fold p.1 = Text.fold name →
      (ofList pairs).get? name = (ofList pairs).get? p.1 := by
    intro p hp
    rw [get?, get?, hp]
  constructor
  · intro hget
    by_contra hmem
    have hnone : (ofList pairs).get? name = none := by
      refine get?_insertAll_of_forall_ne fun p hp heq => hmem ?_
      have hvalue := (hsame heq.symm).symm.trans hget
      rw [ofList, get?_insertAll_of_mem hp h] at hvalue
      rw [heq, ← Option.some.inj hvalue]
      exact List.mem_map_of_mem hp
    exact nomatch hnone.symm.trans hget
  · intro hmem
    obtain ⟨p, hp, heq⟩ := List.mem_map.mp hmem
    obtain ⟨hname, rfl⟩ := Prod.mk.inj heq
    rw [hsame hname, ofList, get?_insertAll_of_mem hp h]

/-- Inputs with the same folded names and values are equal, in whatever order they were given. -/
theorem beq_ofList_of_perm {pairs pairs' : List (String × String)}
    (h : pairs.Pairwise fun a b => Text.fold a.1 ≠ Text.fold b.1)
    (hperm : (pairs.map foldName).Perm (pairs'.map foldName)) :
    (ofList pairs == ofList pairs') = true := by
  have h' : pairs'.Pairwise fun a b => Text.fold a.1 ≠ Text.fold b.1 :=
    pairwise_map_foldName.mp ((pairwise_map_foldName.mpr h).perm hperm Ne.symm)
  refine ((named_empty.insertAll pairs).beq_iff (named_empty.insertAll pairs')).mpr fun name => ?_
  refine Option.ext fun value => ?_
  change (ofList pairs).get? name = some value ↔ (ofList pairs').get? name = some value
  rw [get?_ofList_eq_some_iff h, get?_ofList_eq_some_iff h', hperm.mem_iff]

/-- Inputs are the same, in whatever order they were given, if no name was given twice. -/
theorem ofList_perm {pairs pairs' : List (String × String)}
    (h : pairs.Pairwise fun a b => Text.fold a.1 ≠ Text.fold b.1) (hperm : pairs.Perm pairs') :
    ofList pairs = ofList pairs' := by
  have h' := h.perm hperm Ne.symm
  have hkeyed : (keyed pairs).Pairwise fun a b => a.1 ≠ b.1 := List.pairwise_map.mpr h
  have hkeyed' : (keyed pairs').Pairwise fun a b => a.1 ≠ b.1 := List.pairwise_map.mpr h'
  have hnew (ps : List (String × String)) :
      ∀ p ∈ ps, Text.fold p.1 ∉ (∅ : Inputs).entries.names := fun _ _ hmem => nomatch hmem
  rw [ofList, ofList, insertAll_eq (hnew pairs) h, insertAll_eq (hnew pairs') h']
  refine congrArg Inputs.mk (Dictionary.ofEntries_eq_of_perm ?_ ?_)
  · exact Dictionary.canonical_foldl_put _ Dictionary.canonical_nil
  · exact (hperm.map _).trans (Dictionary.ofEntries_perm hkeyed').symm

end PipelineExpansion.Task.Inputs
