import Mathlib.Data.List.Induction
import PipelineExpansion.Pipeline.Load
import PipelineExpansion.Proofs.Pipeline.Variables

/-!
# The last definition of a variable counts

A section of variables makes definitions, one after another: a mapping one for each entry, a sequence
one for each variable or group, and for a template those that its own section makes, in the place of
the reference. They are the same whatever variables there are already (`definitions`), so that reading
a section is to put its definitions into the list that there is (`addVariables_eq`).

What becomes of definitions in a list that is empty at first is `LastWins`, by induction on the
definitions from the end: a definition changes what is found under its own name alone, and takes a new
place only if its name has none.

## Main results

* `addVariables_eq`: a section is read as its definitions.
* `LastWins.define`: a further definition of a name is the last one.
* `addVariables_lastWins`: the variables of a section, with all templates in it.
-/

namespace PipelineExpansion.Pipeline

open Template (Context Entry Journal Resolve Schema Token)
open Template.Resolve

variable {refs : References} {c : Context} {defs vars : List Variable} {t : Token}

/-! ### Definitions -/

/-- What an entry of a mapping defines. -/
def entryDefinitions (e : Entry) : Except Diagnostic (List Variable) := do
  return [.value e.1.name (← e.2.expectText e.1.name) false]

/-- What an item of a sequence defines, where `template` says what templates do. -/
def itemDefinitions (template : Context → String → Option Token → Resolve (List Variable))
    (c : Context) (t : Token) : Resolve (List Variable) := do
  let entries ← Resolve.ofExcept (t.expectMapping "variables")
  let item ← Resolve.ofExcept (entries.foldlM VariableItem.read {})
  match item.group, item.template, item.name with
  | some group, _, _ => return [.group group]
  | none, some reference, _ => template c reference item.parameters
  | none, none, some name => return [.value name (item.value.getD "") item.readonly]
  | none, none, none => throw (t.fault "A variable requires a 'name'")

/-- What a section defines, in its order. -/
def sectionDefinitions (template : Context → String → Option Token → Resolve (List Variable))
    (c : Context) (t : Token) : Resolve (List Variable) :=
  match t with
  | .null _ => return []
  | .mapping _ entries => do
    return (← Resolve.ofExcept (entries.mapM entryDefinitions)).flatten
  | t => do
    let items ← Resolve.ofExcept (t.expectSequence "variables")
    return (← items.mapM (itemDefinitions template c)).flatten

/-- What a template defines: all that its own section does. References may lead `n` deep. -/
def templateDefinitions : Nat → Context → String → Option Token → Resolve (List Variable)
  | 0, _, _, _ => .unfinished
  | n + 1, c, reference, parameters => do
    let loaded ← readTemplate (references n) c reference parameters Schema.variableRoot
    withSection loaded "variables" [] fun c t =>
      Resolve.inFile loaded.name (sectionDefinitions (templateDefinitions n) c t)

/-- The definitions of a section in their order, those of templates in the places of the references
to them. References may lead `n` deep. -/
def definitions (n : Nat) : Context → Token → Resolve (List Variable) :=
  sectionDefinitions (templateDefinitions n)

/-- Variables with a further definition. -/
def define (vars : List Variable) : Variable → List Variable
  | .value name value readonly => setVariable vars (.value name value readonly)
  | .group name => addGroup vars name

/-! ### A section is read as its definitions -/

/-- Items that each make definitions make all of these, one after another. -/
theorem foldlM_define {m : Type → Type} [Monad m] [LawfulMonad m] {α : Type}
    {step : List Variable → α → m (List Variable)} {read : α → m (List Variable)}
    (h : ∀ vars a, step vars a = read a >>= fun defs => pure (defs.foldl define vars))
    (items : List α) (vars : List Variable) :
    items.foldlM step vars =
      items.mapM read >>= fun parts => pure (parts.flatten.foldl define vars) := by
  induction items generalizing vars with
  | nil => simp
  | cons a rest ih => simp [h, ih, List.foldl_append]

theorem addVariableEntry_eq (vars : List Variable) (e : Entry) :
    addVariableEntry vars e = entryDefinitions e >>= fun defs => pure (defs.foldl define vars) := by
  rw [addVariableEntry, entryDefinitions, bind_assoc]
  rfl

section Template

variable {template : Context → String → Option Token → Resolve (List Variable)}
  (h : ∀ c vars reference parameters, refs.vars c vars reference parameters =
    template c reference parameters >>= fun defs => pure (defs.foldl define vars))

include h

theorem addVariableItem_eq (c : Context) (vars : List Variable) (t : Token) :
    addVariableItem refs c vars t =
      itemDefinitions template c t >>= fun defs => pure (defs.foldl define vars) := by
  rw [addVariableItem, itemDefinitions, bind_assoc]
  refine bind_congr fun entries => ?_
  rw [bind_assoc]
  refine bind_congr fun item => ?_
  cases item.group with
  | some group => rfl
  | none =>
      cases item.template with
      | some reference => exact h c vars reference item.parameters
      | none => cases item.name <;> rfl

/-- A section is read as its definitions where templates are. -/
theorem addVariables_eq_section (c : Context) (vars : List Variable) (t : Token) :
    addVariables refs c vars t =
      sectionDefinitions template c t >>= fun defs => pure (defs.foldl define vars) := by
  have hitems : ∀ t : Token,
      (Resolve.ofExcept (t.expectSequence "variables") >>= fun items =>
          items.foldlM (addVariableItem refs c) vars) =
        (Resolve.ofExcept (t.expectSequence "variables") >>= fun items =>
          items.mapM (itemDefinitions template c) >>= fun parts => pure parts.flatten) >>=
          fun defs => pure (defs.foldl define vars) := by
    intro t
    rw [bind_assoc]
    refine bind_congr fun items => ?_
    rw [foldlM_define (addVariableItem_eq h c), bind_assoc]
    rfl
  cases t with
  | null p => rfl
  | mapping p entries =>
      rw [addVariables, sectionDefinitions, foldlM_define addVariableEntry_eq, ofExcept_bind,
        bind_assoc]
      rfl
  | _ => exact hitems _

end Template

/-- Templates are read as their definitions, however deep references may lead. -/
theorem references_vars_eq (n : Nat) (c : Context) (vars : List Variable) (reference : String)
    (parameters : Option Token) :
    (references n).vars c vars reference parameters =
      templateDefinitions n c reference parameters >>= fun defs => pure (defs.foldl define vars) := by
  induction n generalizing c vars reference parameters with
  | zero => rfl
  | succ n ih =>
      change readTemplate (references n) c reference parameters Schema.variableRoot >>= _ = _
      rw [templateDefinitions, bind_assoc]
      refine bind_congr fun loaded => ?_
      rw [withSection, withSection]
      cases loaded.token.get? "variables" with
      | none => rfl
      | some t =>
          dsimp only
          rw [addVariables_eq_section ih, inFile_bind]
          rfl

/-- **A section is read as its definitions**, one after another. -/
theorem addVariables_eq (n : Nat) (c : Context) (vars : List Variable) (t : Token) :
    addVariables (references n) c vars t =
      definitions n c t >>= fun defs => pure (defs.foldl define vars) :=
  addVariables_eq_section (references_vars_eq n) c vars t

/-! ### What becomes of definitions -/

/-- What definitions come to. There is one variable for each name and one group for each, whatever the
case of letters. Under a name the last definition is found, as it is spelled there, or none if there
is none; a group is the first of its name. They are in the order of the first definitions. -/
structure LastWins (defs vars : List Variable) : Prop where
  distinct : (slots vars).Nodup
  defined : ∀ slot, slot ∈ slots vars ↔ slot ∈ slots defs
  last : ∀ name, vars.find? (·.slot = (true, Text.fold name)) =
    defs.reverse.find? (·.slot = (true, Text.fold name))
  group : ∀ name, vars.find? (·.slot = (false, Text.fold name)) =
    defs.find? (·.slot = (false, Text.fold name))
  order : (slots vars).Pairwise fun a b => (slots defs).idxOf a < (slots defs).idxOf b

theorem lastWins_nil : LastWins [] [] :=
  ⟨List.nodup_nil, fun _ => Iff.rfl, fun _ => rfl, fun _ => rfl, .nil⟩

theorem slots_concat (vars : List Variable) (v : Variable) :
    slots (vars ++ [v]) = slots vars ++ [v.slot] :=
  List.map_append

/-- A definition takes a new place only if its name has none. -/
theorem slots_define (vars : List Variable) (v : Variable) :
    slots (define vars v) = if v.slot ∈ slots vars then slots vars else slots vars ++ [v.slot] := by
  cases v with
  | value name value readonly =>
      split
      · next h => exact slots_setVariable_of_mem h
      · next h => rw [define, setVariable_of_notMem h, slots_concat]
  | group name =>
      split
      · next h => rw [define, addGroup_of_mem h]
      · next h => rw [define, addGroup_of_notMem h, slots_concat]

/-- A variable is found under its own name, and all others as before. -/
theorem find?_setVariable (name value : String) (readonly : Bool) (slot : Bool × String) :
    (setVariable vars (.value name value readonly)).find? (·.slot = slot) =
      if (true, Text.fold name) = slot then some (.value name value readonly)
      else vars.find? (·.slot = slot) := by
  induction vars with
  | nil =>
      by_cases h : (true, Text.fold name) = slot <;> simp [setVariable, Variable.slot, h]
  | cons first rest ih =>
      by_cases hsame : (first.name?.any (Text.sameName · name)) = true
      · have hset : setVariable (first :: rest) (.value name value readonly)
            = .value name value readonly :: rest := if_pos hsame
        have hslot : first.slot = (true, Text.fold name) :=
          (takesPlace_iff name value readonly first).mp hsame
        rw [hset, List.find?_cons, List.find?_cons, hslot]
        by_cases h : (true, Text.fold name) = slot <;> simp [Variable.slot, h]
      · have hset : setVariable (first :: rest) (.value name value readonly)
            = first :: setVariable rest (.value name value readonly) := if_neg hsame
        have hslot : first.slot ≠ (true, Text.fold name) :=
          fun heq => hsame ((takesPlace_iff name value readonly first).mpr heq)
        rw [hset, List.find?_cons, List.find?_cons, ih]
        by_cases h : first.slot = slot
        · have hother : (true, Text.fold name) ≠ slot := fun heq => hslot (h.trans heq.symm)
          simp [h, hother]
        · simp [h]

/-- A group is found under its name if there was none, and all others as before. -/
theorem find?_addGroup (name : String) (slot : Bool × String) :
    (addGroup vars name).find? (·.slot = slot) =
      (vars.find? (·.slot = slot)).or
        (if (false, Text.fold name) = slot then some (.group name) else none) := by
  by_cases hmem : (Variable.group name).slot ∈ slots vars
  · rw [addGroup_of_mem hmem]
    split
    · next h =>
      have hsome : (vars.find? (·.slot = slot)).isSome := by
        obtain ⟨v, hv, hslot⟩ := List.mem_map.mp hmem
        exact List.find?_isSome.mpr ⟨v, hv, by simpa using hslot.trans h⟩
      obtain ⟨v, hv⟩ := Option.isSome_iff_exists.mp hsome
      rw [hv, Option.some_or]
    · rw [Option.or_none]
  · rw [addGroup_of_notMem hmem, List.find?_append]
    by_cases h : (false, Text.fold name) = slot <;> simp [Variable.slot, h]

/-- **A further definition** of a name is the last one, and the first one of a new name. -/
theorem LastWins.define (h : LastWins defs vars) (d : Variable) :
    LastWins (defs ++ [d]) (define vars d) := by
  have hslots := slots_define vars d
  refine ⟨?_, fun slot => ?_, fun name => ?_, fun name => ?_, ?_⟩
  · rw [hslots]
    split
    · exact h.distinct
    · next hnew =>
      refine List.nodup_append.mpr ⟨h.distinct, List.nodup_singleton _, ?_⟩
      rintro a ha b hb rfl
      exact hnew (List.mem_singleton.mp hb ▸ ha)
  · rw [hslots, slots_concat, List.mem_append, List.mem_singleton, ← h.defined]
    split
    · next hmem => exact ⟨.inl, fun hor => hor.elim id fun heq => heq ▸ hmem⟩
    · rw [List.mem_append, List.mem_singleton]
  · rw [List.reverse_append, List.reverse_singleton, List.singleton_append, List.find?_cons,
      ← h.last]
    cases d with
    | value other value readonly =>
        rw [Pipeline.define, find?_setVariable]
        by_cases hname : (true, Text.fold other) = (true, Text.fold name) <;>
          simp [Variable.slot, hname]
    | group other =>
        rw [Pipeline.define, find?_addGroup]
        simp [Variable.slot]
  · rw [List.find?_append, ← h.group]
    cases d with
    | value other value readonly =>
        rw [Pipeline.define, find?_setVariable]
        simp [Variable.slot]
    | group other =>
        rw [Pipeline.define, find?_addGroup]
        by_cases hname : (false, Text.fold other) = (false, Text.fold name) <;>
          simp [Variable.slot, hname]
  · -- The places that there are keep their order, and a new one comes behind them all.
    have hkeep : ∀ slot ∈ slots vars,
        (slots (defs ++ [d])).idxOf slot = (slots defs).idxOf slot := by
      intro slot hslot
      rw [slots_concat, List.idxOf_append_of_mem ((h.defined slot).mp hslot)]
    have hold : (slots vars).Pairwise fun a b =>
        (slots (defs ++ [d])).idxOf a < (slots (defs ++ [d])).idxOf b := by
      refine (List.Pairwise.and_mem.mp h.order).imp ?_
      rintro a b ⟨ha, hb, hlt⟩
      rwa [hkeep a ha, hkeep b hb]
    rw [hslots]
    split
    · exact hold
    · next hnew =>
      have hlast : (slots (defs ++ [d])).idxOf d.slot = (slots defs).length := by
        rw [slots_concat, List.idxOf_append_of_notMem fun hmem => hnew ((h.defined _).mpr hmem),
          List.idxOf_cons_self, Nat.add_zero]
      refine List.pairwise_append.mpr ⟨hold, List.pairwise_singleton _ _, fun a ha b hb => ?_⟩
      rw [List.mem_singleton.mp hb, hlast, hkeep a ha]
      exact List.idxOf_lt_length_of_mem ((h.defined a).mp ha)

/-- Of all definitions of a name the last one counts. -/
theorem lastWins_foldl_define (defs : List Variable) : LastWins defs (defs.foldl define []) := by
  induction defs using List.reverseRecOn with
  | nil => exact lastWins_nil
  | append_singleton defs d ih =>
      rw [List.foldl_append]
      exact ih.define d

/-- **The last definition of a variable counts**, in the place of the first, wherever in a section or
in the templates of it the definitions are. -/
theorem addVariables_lastWins {n : Nat} {j j' : Journal}
    (hrun : (addVariables (references n) c [] t).run.run j = some (.ok vars, j')) :
    ∃ defs, (definitions n c t).run.run j = some (.ok defs, j') ∧ LastWins defs vars := by
  rw [addVariables_eq] at hrun
  obtain ⟨defs, j₁, hdefs, hpure⟩ := Resolve.run_bind_eq_ok.mp hrun
  cases hpure
  exact ⟨defs, hdefs, lastWins_foldl_define defs⟩

/-- Two templates of variables, the second of them in the first. -/
def colorFiles : Context where
  files := Files.inMemory
    [⟨none, "colors.yml", "variables:\n- \x7bname: COLOR, value: green, readonly: true\x7d\n" ++
      "- group: Shared\n- template: sizes.yml\n- group: shared\n"⟩,
     ⟨none, "sizes.yml", "variables: \x7bsize: 3, Paper: plain\x7d"⟩]
  schema := .standard

/-- A section with a template between two definitions of a variable that the template defines too. -/
def colorSection : Token := .ofItems
  [.ofPairs [("name", .ofText "color"), ("value", .ofText "red")],
   .ofPairs [("template", .ofText "colors.yml")],
   .ofPairs [("name", .ofText "Size"), ("value", .ofText "4")]]

/-- The template's definition of the colour counts, and the section's one of the size. -/
theorem lastWins_colorSection :
    ∃ defs j', (definitions 2 colorFiles colorSection).run.run {} = some (.ok defs, j') ∧
      LastWins defs [.value "COLOR" "green" true, .group "Shared", .value "Size" "4" false,
        .value "Paper" "plain" false] := by
  have hcheck : ((addVariables (references 2) colorFiles [] colorSection).run.run {}).any
      (fun out => decide (out.1.toOption = some [.value "COLOR" "green" true, .group "Shared",
        .value "Size" "4" false, .value "Paper" "plain" false])) = true := by
    decide +kernel
  obtain ⟨⟨outcome, j'⟩, hrun, hvars⟩ := Option.any_eq_true _ _ |>.mp hcheck
  cases outcome with
  | error d => cases of_decide_eq_true hvars
  | ok vars =>
      obtain rfl := Option.some.inj (of_decide_eq_true hvars)
      obtain ⟨defs, hdefs, hlast⟩ := addVariables_lastWins hrun
      exact ⟨defs, j', hdefs, hlast⟩

end PipelineExpansion.Pipeline
