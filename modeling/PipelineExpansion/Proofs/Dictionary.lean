import Mathlib.Data.String.Basic
import PipelineExpansion.Dictionary

/-!
# Dictionaries are canonical

`put` keeps a dictionary in ascending order of its names, each name once (`Canonical.put`). A
dictionary in this order is determined by its entries alone, so that it is built again from them
in whatever order they come (`ofEntries_eq_of_perm`).
-/

namespace PipelineExpansion.Dictionary

variable {α : Type} {d : Dictionary α} {name : String} {value : α}

/-- Entries in ascending order of their names, each name once. -/
def Canonical (d : Dictionary α) : Prop := d.Pairwise fun a b => a.1 < b.1

theorem canonical_nil : Canonical ([] : Dictionary α) := List.Pairwise.nil

/-- The entries after a change are the changed one and those before. -/
theorem mem_put {e : String × α} (h : e ∈ d.put name value) : e = (name, value) ∨ e ∈ d := by
  induction d with
  | nil => exact .inl (List.mem_singleton.mp h)
  | cons entry rest ih =>
      rw [put] at h
      split at h
      · exact List.mem_cons.mp h
      · split at h
        · rcases List.mem_cons.mp h with rfl | hrest
          · exact .inl rfl
          · exact .inr (List.mem_cons_of_mem _ hrest)
        · rcases List.mem_cons.mp h with rfl | hput
          · exact .inr List.mem_cons_self
          · exact (ih hput).imp_right (List.mem_cons_of_mem _)

theorem mem_names_put {n : String} (h : n ∈ (d.put name value).names) :
    n = name ∨ n ∈ d.names := by
  obtain ⟨e, he, rfl⟩ := List.mem_map.mp h
  rcases mem_put he with rfl | hmem
  · exact .inl rfl
  · exact .inr (List.mem_map_of_mem hmem)

/-- **Changes keep the order.** -/
theorem Canonical.put (h : d.Canonical) : (d.put name value).Canonical := by
  induction d with
  | nil => exact List.pairwise_singleton _ _
  | cons entry rest ih =>
      obtain ⟨hhead, hrest⟩ := List.pairwise_cons.mp h
      rw [Dictionary.put]
      split
      · next hlt =>
        refine List.pairwise_cons.mpr ⟨fun e he => ?_, h⟩
        rcases List.mem_cons.mp he with rfl | hmem
        · exact hlt
        · exact hlt.trans (hhead e hmem)
      · next hlt =>
        split
        · next heq => exact List.pairwise_cons.mpr ⟨fun e he => heq ▸ hhead e he, hrest⟩
        · next hne =>
          refine List.pairwise_cons.mpr ⟨fun e he => ?_, ih hrest⟩
          rcases mem_put he with rfl | hmem
          · exact lt_of_le_of_ne (not_lt.mp hlt) (Ne.symm hne)
          · exact hhead e hmem

/-- A new name brings one entry more. -/
theorem put_perm (value : α) (h : name ∉ d.names) :
    (d.put name value).Perm ((name, value) :: d) := by
  induction d with
  | nil => exact .refl _
  | cons entry rest ih =>
      rw [names, List.map_cons, List.mem_cons, not_or] at h
      rw [put, if_neg h.1]
      split
      · exact .refl _
      · exact ((ih h.2).cons entry).trans (.swap _ _ _)

/-- A name that differs from all others, in some sense, leaves the names different. -/
theorem pairwise_put {R : String → String → Prop} (hsymm : ∀ a b, R a b → R b a)
    (h : d.Pairwise fun a b => R a.1 b.1) (hnew : ∀ n ∈ d.names, R n name)
    (hname : name ∉ d.names) :
    (d.put name value).Pairwise fun a b => R a.1 b.1 := by
  have hcons : ((name, value) :: d).Pairwise fun a b => R a.1 b.1 :=
    List.pairwise_cons.mpr ⟨fun e he => hsymm _ _ (hnew e.1 (List.mem_map_of_mem he)), h⟩
  exact hcons.perm (put_perm value hname).symm fun h => hsymm _ _ h

/-- A name is there when it has a value. -/
theorem has_iff : d.has name = true ↔ name ∈ d.names := by
  induction d with
  | nil => simp [has, find?, names]
  | cons entry rest ih =>
      rw [names, List.map_cons, List.mem_cons, ← names, ← ih, has, has, find?, find?,
        List.lookup_cons]
      by_cases h : name = entry.1
      · simp [h]
      · simp [h, beq_false_of_ne h]

/-- A change is seen under its name alone. -/
theorem find?_put (d : Dictionary α) (name : String) (value : α) (n : String) :
    (d.put name value).find? n = if n = name then some value else d.find? n := by
  induction d with
  | nil =>
      rw [put, find?, List.lookup_cons]
      by_cases h : n = name
      · simp [h]
      · simp [h, beq_false_of_ne h, find?]
  | cons entry rest ih =>
      rw [put]
      split
      · rw [find?, List.lookup_cons, ← find?]
        by_cases h : n = name
        · simp [h]
        · simp [h, beq_false_of_ne h]
      · split
        · next heq =>
          rw [find?, find?, List.lookup_cons, List.lookup_cons]
          by_cases h : n = name
          · simp [h]
          · simp [h, beq_false_of_ne h, beq_false_of_ne (heq ▸ h : n ≠ entry.1)]
        · next hne =>
          rw [find?, find?, List.lookup_cons, List.lookup_cons, ← find?, ← find?, ih]
          by_cases h : n = entry.1
          · simp [h, Ne.symm hne]
          · simp [beq_false_of_ne h]

theorem mem_remove {e : String × α} : e ∈ d.remove name ↔ e ∈ d ∧ e.1 ≠ name := by
  rw [remove, List.mem_filter, decide_eq_true_iff]

theorem Canonical.remove (h : d.Canonical) (name : String) : (d.remove name).Canonical := h.filter _

/-- What is removed is gone, and nothing else. -/
theorem find?_remove (d : Dictionary α) (name n : String) :
    (d.remove name).find? n = if n = name then none else d.find? n := by
  induction d with
  | nil => rw [remove, List.filter_nil, find?, List.lookup_nil, ite_self]
  | cons entry rest ih =>
      have hcons : remove (entry :: rest) name =
          if entry.1 = name then remove rest name else entry :: remove rest name := by
        simp [remove, List.filter_cons]
      rw [hcons]
      split
      · next hentry =>
        rw [ih, find?, find?, List.lookup_cons]
        by_cases h : n = name
        · rw [if_pos h, if_pos h]
        · rw [if_neg h, if_neg h, beq_false_of_ne (hentry ▸ h)]
      · next hentry =>
        rw [find?, find?, List.lookup_cons, List.lookup_cons, ← find?, ← find?, ih]
        by_cases h : n = entry.1
        · simp [h, hentry]
        · simp [beq_false_of_ne h]

/-- What is found is an entry. -/
theorem mem_of_find?_eq_some (h : d.find? name = some value) : (name, value) ∈ d := by
  induction d with
  | nil => cases h
  | cons entry rest ih =>
      rw [find?, List.lookup_cons] at h
      split at h
      · next heq =>
        cases h
        rw [beq_iff_eq] at heq
        rw [heq]
        exact List.mem_cons_self
      · exact List.mem_cons_of_mem _ (ih h)

theorem Canonical.nodup_names (h : d.Canonical) : d.names.Nodup :=
  List.pairwise_map.mpr (h.imp ne_of_lt)

theorem Canonical.nodup (h : d.Canonical) : d.Nodup :=
  h.imp fun hlt heq => ne_of_lt hlt (congrArg Prod.fst heq)

/-- Two dictionaries with the same entries are the same. -/
theorem Canonical.eq_of_perm {d' : Dictionary α} (h : d.Canonical) (h' : d'.Canonical)
    (hperm : d.Perm d') : d = d' :=
  hperm.eq_of_pairwise (fun _ _ _ _ hab hba => absurd hab (not_lt_of_gt hba)) h h'

theorem canonical_foldl_put (entries : List (String × α)) (h : d.Canonical) :
    (entries.foldl (fun d e => put d e.1 e.2) d).Canonical := by
  induction entries generalizing d with
  | nil => exact h
  | cons e rest ih => exact ih h.put

theorem canonical_ofEntries (entries : List (String × α)) : (ofEntries entries).Canonical :=
  canonical_foldl_put entries canonical_nil

theorem mem_foldl_put {entries : List (String × α)} {e : String × α}
    (h : e ∈ entries.foldl (fun d e => put d e.1 e.2) d) : e ∈ d ∨ e ∈ entries := by
  induction entries generalizing d with
  | nil => exact .inl h
  | cons first rest ih =>
      rcases ih h with hput | hrest
      · rcases mem_put hput with rfl | hmem
        · exact .inr List.mem_cons_self
        · exact .inl hmem
      · exact .inr (List.mem_cons_of_mem _ hrest)

/-- What a dictionary is made of is among the entries it was made from. -/
theorem mem_of_mem_ofEntries {entries : List (String × α)} {e : String × α} (h : e ∈ ofEntries entries) :
    e ∈ entries :=
  (mem_foldl_put h).resolve_left List.not_mem_nil

/-- Entries with new names are added to those that are there. -/
theorem foldl_put_perm {entries : List (String × α)}
    (h : (d ++ entries).Pairwise fun a b => a.1 ≠ b.1) :
    (entries.foldl (fun d e => put d e.1 e.2) d).Perm (d ++ entries) := by
  induction entries generalizing d with
  | nil => rw [List.append_nil, List.foldl_nil]
  | cons e rest ih =>
      have hmiddle : (d ++ e :: rest).Perm ((e :: d) ++ rest) := List.perm_middle
      have hpairwise := h.perm hmiddle Ne.symm
      have hnew : e.1 ∉ d.names := by
        rw [names, List.mem_map]
        rintro ⟨e', he', heq⟩
        exact List.rel_of_pairwise_cons hpairwise (List.mem_append_left _ he') heq.symm
      have hput := put_perm e.2 hnew
      rw [List.foldl_cons]
      refine (ih ?_).trans ((hput.append_right rest).trans hmiddle.symm)
      exact hpairwise.perm (hput.symm.append_right rest) Ne.symm

/-- No entry is lost when all names are different. -/
theorem ofEntries_perm {entries : List (String × α)} (h : entries.Pairwise fun a b => a.1 ≠ b.1) :
    (ofEntries entries).Perm entries :=
  foldl_put_perm h

/-- **A dictionary is built again from its entries**, in whatever order they come. -/
theorem ofEntries_eq_of_perm {entries : List (String × α)} (h : d.Canonical)
    (hperm : entries.Perm d) :
    ofEntries entries = d := by
  have hpairwise : entries.Pairwise fun a b => a.1 ≠ b.1 :=
    (h.imp ne_of_lt).perm hperm.symm Ne.symm
  exact (canonical_ofEntries entries).eq_of_perm h
    ((ofEntries_perm hpairwise).trans hperm)

/-- A dictionary is its own dictionary. -/
theorem Canonical.ofEntries_eq (h : d.Canonical) : ofEntries d = d := ofEntries_eq_of_perm h (.refl d)

/-! ### Values under names -/

/-- What is there is found under its name. -/
theorem Canonical.find?_eq_some_iff (h : d.Canonical) :
    d.find? name = some value ↔ (name, value) ∈ d := by
  refine ⟨mem_of_find?_eq_some, fun hmem => ?_⟩
  induction d with
  | nil => cases hmem
  | cons entry rest ih =>
      obtain ⟨hhead, hrest⟩ := List.pairwise_cons.mp h
      rw [find?, List.lookup_cons]
      rcases List.mem_cons.mp hmem with rfl | hmem
      · simp
      · rw [beq_false_of_ne (ne_of_gt (hhead _ hmem))]
        exact ih hrest hmem

/-- A dictionary is determined by what is found in it. -/
theorem Canonical.ext {d' : Dictionary α} (h : d.Canonical) (h' : d'.Canonical)
    (hfind : ∀ name, d.find? name = d'.find? name) : d = d' := by
  refine h.eq_of_perm h' ((List.perm_ext_iff_of_nodup h.nodup h'.nodup).mpr fun e => ?_)
  rw [← h.find?_eq_some_iff, hfind, h'.find?_eq_some_iff]

theorem find?_map {β : Type} (g : α → β) (d : Dictionary α) (name : String) :
    find? (d.map fun e => (e.1, g e.2)) name = (d.find? name).map g := by
  induction d with
  | nil => rfl
  | cons entry rest ih =>
      rw [List.map_cons, find?, find?, List.lookup_cons, List.lookup_cons]
      cases name == entry.1 with
      | true => rfl
      | false => exact ih

/-- Values that are changed or left out, each under its own name. -/
def filterValues {β : Type} (f : String → α → Option β) (d : Dictionary α) : Dictionary β :=
  d.filterMap fun e => (f e.1 e.2).map fun value => (e.1, value)

variable {β : Type} {f : String → α → Option β}

theorem mem_filterValues {e : String × β} :
    e ∈ d.filterValues f ↔ ∃ value, (e.1, value) ∈ d ∧ f e.1 value = some e.2 := by
  rw [filterValues, List.mem_filterMap]
  constructor
  · rintro ⟨⟨n, value⟩, hmem, hf⟩
    obtain ⟨new, hnew, rfl⟩ := Option.map_eq_some_iff.mp hf
    exact ⟨value, hmem, hnew⟩
  · rintro ⟨value, hmem, hf⟩
    exact ⟨(e.1, value), hmem, by rw [hf, Option.map_some]⟩

theorem Canonical.filterValues (h : d.Canonical) : (d.filterValues f).Canonical := by
  refine (List.pairwise_filterMap.mpr (h.imp fun hlt e he e' he' => ?_))
  obtain ⟨_, -, rfl⟩ := Option.map_eq_some_iff.mp he
  obtain ⟨_, -, rfl⟩ := Option.map_eq_some_iff.mp he'
  exact hlt

theorem Canonical.find?_filterValues (h : d.Canonical) (name : String) :
    (d.filterValues f).find? name = (d.find? name).bind (f name) := by
  ext value
  rw [h.filterValues.find?_eq_some_iff, mem_filterValues, Option.bind_eq_some_iff]
  exact exists_congr fun old => and_congr_left fun _ => h.find?_eq_some_iff.symm

end PipelineExpansion.Dictionary
