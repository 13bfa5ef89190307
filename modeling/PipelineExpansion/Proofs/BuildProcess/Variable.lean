import PipelineExpansion.Proofs.BuildProcess.Step

/-!
# Variables are read back

Variables that are all plain pairs of a name and a value are written as a mapping. A mapping has
each name once: of two variables of one name, what is read back has the first one's place and the
last one's value (`lastValues`). Variables that are written as a sequence are read back as they
are.

## Main results

* `takes_variables`: what variables are written as is read as their normal form.
* `variablesTree_normal`: variables and their normal form are written alike.
-/

namespace PipelineExpansion.BuildProcess

open Yaml

/-! ### What is read -/

/-- What holds of every variable that has been read. -/
def Variable.Sound : Variable → Prop
  | .value v => v.name ≠ ""
  | .template path parameters => path ≠ "" ∧ SoundParameters parameters

theorem yields_readNamed : Yields readNamed fun v => v.name ≠ "" := by
  refine yields_nonEmpty.bind fun name hname => ?_
  refine yields_untilEnd hname fun v hv => yields_bind_of_forall fun key => ?_
  split
  · exact yields_bind_of_forall fun _ => yields_pure hv
  · exact yields_bind_of_forall fun _ => yields_pure hv
  · exact yields_failAt _ _ _

theorem yields_readSimpleVariable : Yields readSimpleVariable fun v => v.name ≠ "" := by
  refine yields_bind_of_forall fun _ => yields_bind_of_forall fun first => ?_
  split
  · exact yields_readNamed
  · exact yields_failAt _ _ _
  · exact yields_failAt _ _ _

theorem yields_readVariable : Yields readVariable Variable.Sound := by
  refine yields_bind_of_forall fun _ => yields_bind_of_forall fun first => ?_
  split
  · exact yields_readNamed.bind fun v hv => yields_pure hv
  · refine yields_nonEmpty.bind fun path hpath => ?_
    refine Yields.bind (P := SoundParameters) ?_ fun parameters hp => yields_pure ⟨hpath, hp⟩
    refine yields_untilEnd soundParameters_nil fun _ _ => yields_bind_of_forall fun key => ?_
    split
    · exact yields_mapping 1
    · exact yields_failAt _ _ _
  · exact yields_failAt _ _ _

theorem yields_readPairs : Yields readPairs fun vs => ∀ v ∈ vs, v.name ≠ "" := by
  refine Yields.bind (P := fun vs => ∀ v ∈ vs, v.name ≠ "") ?_ fun vs hvs => yields_pure ?_
  · refine yields_mappingOf nofun fun vs hvs => ?_
    refine Yields.bind (P := fun v => v.name ≠ "") ?_ fun v hv =>
      yields_pure (List.forall_mem_cons.mpr ⟨hv, hvs⟩)
    exact yields_nonEmpty.bind fun name hname => yields_bind_of_forall fun _ => yields_pure hname
  · exact fun v hv => hvs v (List.mem_reverse.mp hv)

theorem yields_readSimpleVariables :
    Yields readSimpleVariables fun vs => ∀ v ∈ vs, v.name ≠ "" := by
  refine yields_bind_of_forall fun isMapping => ?_
  split
  · exact yields_readPairs
  · exact yields_sequenceOf yields_readSimpleVariable

/-- **Every variable that has been read is sound.** -/
theorem yields_readVariables : Yields readVariables fun vars => ∀ v ∈ vars, v.Sound := by
  refine yields_bind_of_forall fun isMapping => ?_
  split
  · refine yields_readPairs.bind fun vs hvs => yields_pure ?_
    exact List.forall_mem_map.mpr hvs
  · exact yields_sequenceOf yields_readVariable

/-! ### Normal forms -/

/-- Puts a value under a name: in place of the value that is there, or at the end. -/
def putValue : List (String × String) → String → String → List (String × String)
  | [], name, value => [(name, value)]
  | (n, v) :: rest, name, value =>
    if n = name then (n, value) :: rest else (n, v) :: putValue rest name value

/-- Pairs with each name once: in the first place that it has, with the last value that it has. -/
def lastValues (pairs : List (String × String)) : List (String × String) :=
  pairs.foldl (fun ps p => putValue ps p.1 p.2) []

/-- A variable as a pair. -/
def Variable.pairs : Variable → List (String × String)
  | .value v => [(v.name, v.value.getD "")]
  | .template .. => []

/-- A pair as a variable. -/
def ValueVariable.ofPair (p : String × String) : ValueVariable :=
  { name := p.1, value := some p.2 }

/-- What is read back of variables. -/
def normalVariables (vars : List Variable) : List Variable :=
  if vars.all Variable.isPair then
    (lastValues (vars.flatMap Variable.pairs)).map fun p => .value (.ofPair p)
  else vars

/-- What is read back of variables without templates. -/
def normalValues (vars : List ValueVariable) : List ValueVariable :=
  if (vars.map Variable.value).all Variable.isPair then
    (lastValues ((vars.map Variable.value).flatMap Variable.pairs)).map .ofPair
  else vars

theorem map_normalValues (vars : List ValueVariable) :
    (normalValues vars).map Variable.value = normalVariables (vars.map .value) := by
  rw [normalValues, normalVariables]
  split
  · rw [List.map_map]
    rfl
  · rfl

theorem putEntry_map_text (ps : List (String × String)) (name value : String) :
    Tree.putEntry (ps.map fun p => (p.1, .text p.2)) name (.text value)
      = (putValue ps name value).map fun p => (p.1, .text p.2) := by
  induction ps with
  | nil => rfl
  | cons p rest ih =>
      rw [List.map_cons, Tree.putEntry, putValue]
      split
      · rfl
      · rw [ih, List.map_cons]

/-- The tree of pairs has their last values. -/
theorem ofTexts_eq (pairs : List (String × String)) :
    Tree.ofTexts pairs = .mapping ((lastValues pairs).map fun p => (p.1, .text p.2)) := by
  suffices hfold : ∀ ps : List (String × String),
      (pairs.map fun p => (p.1, Tree.text p.2)).foldl (fun es e => Tree.putEntry es e.1 e.2)
          (ps.map fun p => (p.1, Tree.text p.2))
        = (pairs.foldl (fun ps p => putValue ps p.1 p.2) ps).map fun p =>
          (p.1, Tree.text p.2) from
    congrArg Tree.mapping (hfold [])
  induction pairs with
  | nil => exact fun _ => rfl
  | cons p rest ih =>
      intro ps
      rw [List.map_cons, List.foldl_cons, putEntry_map_text]
      exact ih _

theorem mem_putValue {ps : List (String × String)} {name value : String} {p : String × String}
    (h : p ∈ putValue ps name value) : p.1 = name ∨ ∃ q ∈ ps, q.1 = p.1 := by
  induction ps with
  | nil => exact .inl (congrArg Prod.fst (List.mem_singleton.mp h))
  | cons q rest ih =>
      rw [putValue] at h
      split at h
      · next hq =>
        rcases List.mem_cons.mp h with rfl | hmem
        · exact .inl hq
        · exact .inr ⟨p, List.mem_cons_of_mem _ hmem, rfl⟩
      · rcases List.mem_cons.mp h with rfl | hmem
        · exact .inr ⟨_, List.mem_cons_self, rfl⟩
        · rcases ih hmem with hname | ⟨q', hq', hq''⟩
          · exact .inl hname
          · exact .inr ⟨q', List.mem_cons_of_mem _ hq', hq''⟩

theorem putValue_nodup {ps : List (String × String)} {name value : String}
    (h : (ps.map (·.1)).Nodup) : ((putValue ps name value).map (·.1)).Nodup := by
  induction ps with
  | nil => exact List.nodup_singleton _
  | cons q rest ih =>
      rw [List.map_cons, List.nodup_cons] at h
      rw [putValue]
      split
      · exact List.nodup_cons.mpr h
      · next hne =>
        rw [List.map_cons, List.nodup_cons]
        refine ⟨fun hmem => ?_, ih h.2⟩
        obtain ⟨p, hp, hpq⟩ := List.mem_map.mp hmem
        rcases mem_putValue hp with hname | ⟨q', hq', hq''⟩
        · exact hne (hpq.symm.trans hname)
        · exact h.1 (List.mem_map.mpr ⟨q', hq', hq''.trans hpq⟩)

/-- Whatever is put, each name is there once. -/
theorem nodup_lastValues (pairs : List (String × String)) :
    ((lastValues pairs).map (·.1)).Nodup :=
  List.foldlRecOn (motive := fun ps : List (String × String) => (ps.map (·.1)).Nodup) (b := [])
    pairs (fun ps p => putValue ps p.1 p.2) List.nodup_nil fun _ h _ _ => putValue_nodup h

/-- The names of last values are names of pairs. -/
theorem mem_lastValues {pairs : List (String × String)} {p : String × String}
    (h : p ∈ lastValues pairs) : ∃ q ∈ pairs, q.1 = p.1 := by
  have hfold : ∀ p ∈ lastValues pairs, ∃ q ∈ pairs, q.1 = p.1 := by
    refine List.foldlRecOn
      (motive := fun ps : List (String × String) => ∀ p ∈ ps, ∃ q ∈ pairs, q.1 = p.1)
      pairs _ (fun _ h => nomatch h) fun ps hps q hq p hp => ?_
    rcases mem_putValue hp with hname | ⟨p', hp', hsame⟩
    · exact ⟨q, hq, hname.symm⟩
    · obtain ⟨q', hq', hname⟩ := hps p' hp'
      exact ⟨q', hq', hname.trans hsame⟩
  exact hfold p h

theorem lastValues_eq_nil {pairs : List (String × String)} :
    lastValues pairs = [] ↔ pairs = [] := by
  constructor
  · intro h
    rcases List.eq_nil_or_concat' pairs with rfl | ⟨init, p, rfl⟩
    · rfl
    · rw [lastValues, List.foldl_concat] at h
      revert h
      generalize init.foldl _ _ = ps
      cases ps with
      | nil => nofun
      | cons q rest =>
          rw [putValue]
          split <;> nofun
  · rintro rfl
    rfl

/-- Variables that are written as a mapping are written as their pairs. -/
theorem variablesTree_pairs {vars : List Variable} (h : vars.all Variable.isPair = true) :
    variablesTree vars
      = .mapping ((lastValues (vars.flatMap Variable.pairs)).map fun p => (p.1, .text p.2)) := by
  have hentry : ∀ v ∈ vars, v.pairEntry = v.pairs.map fun p => (p.1, .text p.2) := by
    intro v _
    cases v <;> rfl
  rw [variablesTree, if_pos h, ← ofTexts_eq, Tree.ofTexts, List.map_flatMap,
    List.flatMap_congr hentry]

theorem flatMap_pairs_ofPair (ps : List (String × String)) :
    (ps.map fun p => Variable.value (.ofPair p)).flatMap Variable.pairs = ps := by
  rw [List.flatMap_map]
  exact List.flatMap_singleton' ps

/-- Each name is in its own place already. -/
theorem lastValues_of_nodup {ps : List (String × String)} (h : (ps.map (·.1)).Nodup) :
    (lastValues ps).map (fun p => (p.1, Tree.text p.2)) = ps.map fun p => (p.1, .text p.2) := by
  have hkeys : (Tree.keys (ps.map fun p => (p.1, Tree.text p.2))).Nodup := by
    rw [Tree.keys, List.map_map]
    exact h
  exact Tree.mapping.inj ((ofTexts_eq ps).symm.trans (Tree.ofEntries_of_nodup hkeys))

/-- **Variables and their normal form are written alike.** -/
@[simp] theorem variablesTree_normal (vars : List Variable) :
    variablesTree (normalVariables vars) = variablesTree vars := by
  rw [normalVariables]
  split
  · next h =>
    have hall : ((lastValues (vars.flatMap Variable.pairs)).map fun p =>
        Variable.value (.ofPair p)).all Variable.isPair = true := by
      rw [List.all_map, List.all_eq_true]
      exact fun _ _ => rfl
    rw [variablesTree_pairs h, variablesTree_pairs hall, flatMap_pairs_ofPair,
      lastValues_of_nodup (nodup_lastValues _)]
  · rfl

theorem normalVariables_eq_nil {vars : List Variable} :
    normalVariables vars = [] ↔ vars = [] := by
  rw [normalVariables]
  split
  · next h =>
    rw [List.map_eq_nil_iff, lastValues_eq_nil, List.flatMap_eq_nil_iff]
    constructor
    · intro hpairs
      cases vars with
      | nil => rfl
      | cons v rest =>
          have hv := hpairs v List.mem_cons_self
          rw [List.all_cons, Bool.and_eq_true] at h
          cases v with
          | value v => cases hv
          | template path parameters => cases h.1
    · rintro rfl
      nofun
  · rfl

@[simp] theorem isEmpty_normalVariables (vars : List Variable) :
    (normalVariables vars).isEmpty = vars.isEmpty := by
  rw [Bool.eq_iff_iff, List.isEmpty_iff, List.isEmpty_iff]
  exact normalVariables_eq_nil

/-! ### Reading back -/

theorem takes_readPair {p : String × String} (h : p.1 ≠ "") :
    Takes readPair [.scalar p.1 false, .scalar p.2 false] (.ofPair p) :=
  (takes_nonEmpty h).bind (takes_scalar_map (fun s => ValueVariable.mk p.1 (some s) false) p.2)

theorem takes_readPairs {ps : List (String × String)} (h : ∀ p ∈ ps, p.1 ≠ "") :
    Takes readPairs (Tree.mapping (ps.map fun p => (p.1, .text p.2))).events
      (ps.map .ofPair) := by
  have hentries : ∀ done : List ValueVariable,
      Entries (fun vs => readPair >>= fun v => pure (v :: vs)) done
        (ps.map fun p => (p.1, .text p.2)) ((ps.map .ofPair).reverse ++ done) := by
    induction ps with
    | nil => exact fun done => .nil done
    | cons p rest ih =>
        intro done
        obtain ⟨hp, hrest⟩ := List.forall_mem_cons.mp h
        rw [List.map_cons, List.map_cons, List.reverse_cons, List.append_assoc,
          List.singleton_append]
        exact .cons ((takes_readPair hp).map (· :: done)) (ih hrest _)
  have htakes := (takes_mapping (hentries [])).map List.reverse
  rwa [List.append_nil, List.reverse_reverse] at htakes

/-- The entries of a variable behind its name. -/
def ValueVariable.entries (v : ValueVariable) : List (String × Tree) :=
  textEntry "value" v.value ++ if v.verbatim then [("verbatim", .text "true")] else []

theorem takes_named {v : ValueVariable} (h : v.name ≠ "") :
    Takes readNamed (.scalar v.name false :: (Tree.entryEvents v.entries ++ [.mappingEnd]))
      v := by
  have hentries : Entries ValueVariable.property { name := v.name } v.entries v := by
    obtain ⟨name, value, verbatim⟩ := v
    refine (entries_scalar (fun value => ValueVariable.mk name value false) value ?_).append ?_
    · exact fun key hkey => by simp only [hkey]
    · cases verbatim with
      | false => exact .nil _
      | true =>
          have htake := (takes_boolean true).map (ValueVariable.mk name value)
          exact .single (takes_key htake fun key hkey => by simp only [hkey])
  exact (takes_nonEmpty h).bind (takes_entries hentries)

theorem toTree_value (v : ValueVariable) :
    (Variable.value v).toTree = .mapping (("name", .text v.name) :: v.entries) := by
  have hkeys : (Tree.keys ([("name", .text v.name)] ++ textEntry "value" v.value
      ++ if v.verbatim then [("verbatim", .text "true")] else [])).Nodup := by
    refine List.Nodup.sublist ?_ (by decide : (["name"] ++ ["value"] ++ ["verbatim"]).Nodup)
    simp only [Tree.keys_append]
    exact ((List.Sublist.refl _).append (keys_textEntry _ _)).append (keys_when _ _ _)
  rw [Variable.toTree, Tree.ofEntries_of_nodup hkeys]
  rfl

theorem takes_simpleVariable {v : ValueVariable} (h : v.name ≠ "") :
    Takes readSimpleVariable (Variable.value v).toTree.events v := by
  rw [toTree_value]
  refine takes_expect_bind rfl fun _ => takes_scalar_bind fun first hfirst _ => ?_
  simp only [hfirst]
  exact takes_named h

theorem takes_variable {v : Variable} (h : v.Sound) : Takes readVariable v.toTree.events v := by
  cases v with
  | value v =>
      rw [toTree_value]
      refine takes_expect_bind rfl fun _ => takes_scalar_bind fun first hfirst _ => ?_
      simp only [hfirst]
      exact (takes_named h).map Variable.value
  | template path parameters =>
      have hkeys :
        (Tree.keys ([("template", .text path)] ++ parametersEntry parameters)).Nodup := by
        refine List.Nodup.sublist ?_ (by decide : (["template"] ++ ["parameters"]).Nodup)
        rw [Tree.keys_append]
        exact (List.Sublist.refl _).append (keys_parametersEntry _)
      have hentries : Entries (fun _ => do
          let key ← Reader.scalar
          if key.text = "parameters" then Reader.mapping 1 else unexpectedProperty key) []
          (parametersEntry parameters) parameters := by
        refine .unless (fun hempty => List.isEmpty_iff.mp hempty) fun _ => ?_
        exact takes_key (takes_graphMapping h.2) fun key hkey => if_pos hkey
      rw [Variable.toTree, Tree.ofEntries_of_nodup hkeys]
      refine takes_expect_bind rfl fun _ => takes_scalar_bind fun first hfirst _ => ?_
      simp only [hfirst]
      exact (takes_nonEmpty h.1).bind ((takes_entries hentries).map (Variable.template path))

/-- The names of variables are those of their pairs. -/
theorem lastValues_ne {vars : List Variable} (h : ∀ v ∈ vars, v.Sound) :
    ∀ p ∈ lastValues (vars.flatMap Variable.pairs), p.1 ≠ "" := by
  intro p hp
  obtain ⟨q, hq, hname⟩ := mem_lastValues hp
  obtain ⟨v, hv, hqv⟩ := List.mem_flatMap.mp hq
  cases v with
  | value v =>
      obtain rfl := List.mem_singleton.mp hqv
      exact hname ▸ h _ hv
  | template path parameters => cases hqv

/-- **What variables are written as is read as their normal form.** -/
theorem takes_variables {vars : List Variable} (h : ∀ v ∈ vars, v.Sound) :
    Takes readVariables (variablesTree vars).events (normalVariables vars) := by
  by_cases hpairs : vars.all Variable.isPair = true
  · rw [variablesTree_pairs hpairs, normalVariables, if_pos hpairs]
    refine takes_comes_bind rfl ?_
    have htake := (takes_readPairs (lastValues_ne h)).map (List.map Variable.value)
    rwa [List.map_map] at htake
  · rw [variablesTree, if_neg hpairs, normalVariables, if_neg hpairs]
    exact takes_comes_bind rfl (takes_sequenceOf_self fun v hv => takes_variable (h v hv))

theorem takes_simpleVariables {vars : List ValueVariable} (h : ∀ v ∈ vars, v.name ≠ "") :
    Takes readSimpleVariables (variablesTree (vars.map .value)).events (normalValues vars) := by
  have hsound : ∀ v ∈ vars.map Variable.value, v.Sound := List.forall_mem_map.mpr h
  by_cases hpairs : (vars.map Variable.value).all Variable.isPair = true
  · rw [variablesTree_pairs hpairs, normalValues, if_pos hpairs]
    exact takes_comes_bind rfl (takes_readPairs (lastValues_ne hsound))
  · rw [variablesTree, if_neg hpairs, normalValues, if_neg hpairs, List.map_map]
    exact takes_comes_bind rfl (takes_sequenceOf_self fun v hv => takes_simpleVariable (h v hv))

end PipelineExpansion.BuildProcess
