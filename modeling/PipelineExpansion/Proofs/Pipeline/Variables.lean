import Mathlib.Data.List.Nodup
import PipelineExpansion.Pipeline.Variables
import PipelineExpansion.Proofs.Pipeline.Entry

/-!
# Variables are read back from their tokens

Reading a section puts every variable in a place of its own: one for each name, and one for each
group, whatever the case of their letters (`Variable.slot`). Where all places differ, no variable
takes the place of another when the token is read, so that they come back in their order.

## Main results

* `yields_addVariables`: variables that have been read have places of their own.
* `addVariables_variablesToken`: such variables are read back from their token.
-/

namespace PipelineExpansion.Pipeline

open Template (Context Entry Key Resolve Token)
open Template.Resolve

variable {refs : References} {c : Context} {vars : List Variable}

/-! ### Places -/

/-- What a variable takes the place of: other variables or groups of its name. -/
def Variable.slot : Variable → Bool × String
  | .value name _ _ => (true, Text.fold name)
  | .group name => (false, Text.fold name)

/-- The places that are taken. -/
def slots (vars : List Variable) : List (Bool × String) := vars.map Variable.slot

/-- A definition takes the place of a variable when it has the same slot. -/
theorem takesPlace_iff (name value : String) (readonly : Bool) (first : Variable) :
    (first.name?.any (Text.sameName · name)) = true
      ↔ first.slot = (Variable.value name value readonly).slot := by
  cases first <;> simp [Variable.name?, Variable.slot, Text.sameName]

/-- A definition in a new place comes last. -/
theorem setVariable_of_notMem {name value : String} {readonly : Bool}
    (h : (Variable.value name value readonly).slot ∉ slots vars) :
    setVariable vars (.value name value readonly) = vars ++ [.value name value readonly] := by
  induction vars with
  | nil => rfl
  | cons first rest ih =>
      rw [slots, List.map_cons, List.mem_cons, not_or] at h
      have hother : ¬ (first.name?.any (Text.sameName · name)) = true :=
        fun hsame => h.1 ((takesPlace_iff name value readonly first).mp hsame).symm
      exact (if_neg hother).trans (congrArg (first :: ·) (ih h.2))

/-- A definition in a place that is taken leaves the places as they are. -/
theorem slots_setVariable_of_mem {name value : String} {readonly : Bool}
    (h : (Variable.value name value readonly).slot ∈ slots vars) :
    slots (setVariable vars (.value name value readonly)) = slots vars := by
  induction vars with
  | nil => cases h
  | cons first rest ih =>
      by_cases hsame : (first.name?.any (Text.sameName · name)) = true
      · have hset : setVariable (first :: rest) (.value name value readonly)
            = .value name value readonly :: rest := if_pos hsame
        rw [hset, slots, List.map_cons, ← (takesPlace_iff name value readonly first).mp hsame]
        rfl
      · have hset : setVariable (first :: rest) (.value name value readonly)
            = first :: setVariable rest (.value name value readonly) := if_neg hsame
        have hrest : (Variable.value name value readonly).slot ∈ slots rest :=
          (List.mem_cons.mp h).resolve_left fun heq =>
            hsame ((takesPlace_iff name value readonly first).mpr heq.symm)
        rw [hset, slots, List.map_cons, ← slots, ih hrest]
        rfl

theorem mem_setVariable {v w : Variable} (h : w ∈ setVariable vars v) : w = v ∨ w ∈ vars := by
  induction vars with
  | nil => exact .inl (List.mem_singleton.mp h)
  | cons first rest ih =>
      rw [setVariable] at h
      split at h
      · exact (List.mem_cons.mp h).imp_right (List.mem_cons_of_mem _)
      · rcases List.mem_cons.mp h with rfl | hrest
        · exact .inr List.mem_cons_self
        · exact (ih hrest).imp_right (List.mem_cons_of_mem _)

/-- Whether a group is there is a matter of its place. -/
theorem isPresent_iff (vars : List Variable) (name : String) :
    (vars.any fun | .group other => Text.sameName other name | _ => false) = true
      ↔ (Variable.group name).slot ∈ slots vars := by
  rw [List.any_eq_true, slots, List.mem_map]
  refine exists_congr fun v => and_congr_right fun _ => ?_
  cases v <;> simp [Variable.slot, Text.sameName]

theorem addGroup_of_mem {name : String} (h : (Variable.group name).slot ∈ slots vars) :
    addGroup vars name = vars :=
  if_pos ((isPresent_iff vars name).mpr h)

theorem addGroup_of_notMem {name : String} (h : (Variable.group name).slot ∉ slots vars) :
    addGroup vars name = vars ++ [.group name] :=
  if_neg fun hpresent => h ((isPresent_iff vars name).mp hpresent)

/-! ### What holds of variables that have been read -/

/-- Every variable has a place of its own, and groups have names. -/
structure SoundVariables (vars : List Variable) : Prop where
  distinct : (slots vars).Nodup
  groups : ∀ name, .group name ∈ vars → name ≠ ""

theorem soundVariables_nil : SoundVariables [] := ⟨List.nodup_nil, nofun⟩

/-- A variable in a new place. -/
theorem SoundVariables.concat {v : Variable} (h : SoundVariables vars) (hnew : v.slot ∉ slots vars)
    (hgroup : ∀ name, v = .group name → name ≠ "") : SoundVariables (vars ++ [v]) := by
  constructor
  · rw [slots, List.map_append, ← slots]
    exact List.nodup_append.mpr ⟨h.distinct, List.nodup_singleton _, by
      rintro a ha b hb rfl
      exact hnew (List.mem_singleton.mp hb ▸ ha)⟩
  · intro name hmem
    rcases List.mem_append.mp hmem with hold | hv
    · exact h.groups name hold
    · exact hgroup name (List.mem_singleton.mp hv).symm

theorem SoundVariables.setVariable (h : SoundVariables vars) (name value : String)
    (readonly : Bool) : SoundVariables (setVariable vars (.value name value readonly)) := by
  by_cases hmem : (Variable.value name value readonly).slot ∈ slots vars
  · refine ⟨by rw [slots_setVariable_of_mem hmem]; exact h.distinct, fun group hgroup => ?_⟩
    rcases mem_setVariable hgroup with heq | hold
    · cases heq
    · exact h.groups group hold
  · rw [setVariable_of_notMem hmem]
    exact h.concat hmem nofun

theorem SoundVariables.addGroup {name : String} (h : SoundVariables vars) (hname : name ≠ "") :
    SoundVariables (addGroup vars name) := by
  by_cases hmem : (Variable.group name).slot ∈ slots vars
  · rwa [addGroup_of_mem hmem]
  · rw [addGroup_of_notMem hmem]
    exact h.concat hmem (by rintro _ ⟨⟩; exact hname)

theorem VariableItem.ensures_read {item : VariableItem} (h : ∀ name ∈ item.group, name ≠ "")
    (e : Entry) : Ensures (item.read e) fun item => ∀ name ∈ item.group, name ≠ "" := by
  obtain ⟨key, value⟩ := e
  unfold VariableItem.read
  simp only
  split
  case h_4 =>
    refine (value.ensures_expectNonEmpty "group").bind fun name hname => ?_
    exact ensures_pure (by rintro _ ⟨⟩; exact hname)
  case h_6 => exact ensures_ok h
  case h_7 => exact ensures_error _ _
  all_goals
    refine ensures_bind_of_forall fun _ => ?_
    exact ensures_pure h

/-- Variables that references lead to are sound if those are that they are added to. -/
def References.SoundVars (refs : References) : Prop :=
  ∀ c vars path parameters, SoundVariables vars →
    Yields (refs.vars c vars path parameters) SoundVariables

theorem yields_addVariableItem (hrefs : refs.SoundVars) (c : Context) (h : SoundVariables vars)
    (t : Token) : Yields (addVariableItem refs c vars t) SoundVariables := by
  unfold addVariableItem
  refine yields_bind_of_forall fun entries => ?_
  refine (yields_ofExcept (ensures_foldlM (fun _ e h => VariableItem.ensures_read h e)
    (by rintro _ ⟨⟩) entries)).bind fun item hitem => ?_
  split
  · next _ _ _ group hgroup => exact yields_pure (h.addGroup (hitem group hgroup))
  · exact hrefs c vars _ item.parameters h
  · exact yields_pure (h.setVariable _ _ _)
  · exact yields_throw _ _

theorem ensures_addVariableEntry (h : SoundVariables vars) (e : Entry) :
    Ensures (addVariableEntry vars e) SoundVariables :=
  ensures_bind_of_forall fun _ => ensures_pure (h.setVariable _ _ _)

/-- **Variables that have been read have places of their own.** -/
theorem yields_addVariables (hrefs : refs.SoundVars) (c : Context) (h : SoundVariables vars)
    (t : Token) : Yields (addVariables refs c vars t) SoundVariables := by
  unfold addVariables
  split
  · exact yields_pure h
  · next entries =>
    exact yields_ofExcept (ensures_foldlM (fun _ e h => ensures_addVariableEntry h e) h entries)
  · refine yields_bind_of_forall fun items => ?_
    exact yields_foldlM (fun _ t h => yields_addVariableItem hrefs c h t) h items

/-! ### Variables are read back -/

theorem addVariableItem_toToken {v : Variable} (hnew : v.slot ∉ slots vars)
    (hgroup : ∀ name, v = .group name → name ≠ "") :
    addVariableItem refs c vars v.toToken = pure (vars ++ [v]) := by
  cases v with
  | value name value readonly =>
      rw [← setVariable_of_notMem hnew]
      cases readonly <;> rfl
  | group name =>
      rw [← addGroup_of_notMem hnew]
      have hitem : [madeEntry ("group", .ofText name)].foldlM VariableItem.read {}
          = .ok { group := some name } :=
        Leads.single (bind_of_eq_pure (Token.expectNonEmpty_ofText "group" (hgroup name rfl)) _)
      exact bind_of_eq_pure (congrArg Resolve.ofExcept hitem) _

/-- Where all places differ, each variable comes behind those that have been read. -/
theorem foldlM_addVariableItem {rest : List Variable} (h : SoundVariables (vars ++ rest)) :
    (rest.map Variable.toToken).foldlM (addVariableItem refs c) vars = pure (vars ++ rest) := by
  induction rest generalizing vars with
  | nil => rw [List.append_nil, List.map_nil, List.foldlM_nil]
  | cons v rest ih =>
      have hmiddle : vars ++ v :: rest = vars ++ [v] ++ rest := by simp
      rw [hmiddle] at h ⊢
      have hdistinct := h.distinct
      rw [slots, List.map_append, List.map_append] at hdistinct
      have hnew : v.slot ∉ slots vars := fun hmem =>
        List.disjoint_of_nodup_append hdistinct.of_append_left hmem List.mem_cons_self
      have hgroup : ∀ name, v = .group name → name ≠ "" := fun name hv =>
        h.groups name (by simp [hv])
      rw [List.map_cons, List.foldlM_cons, addVariableItem_toToken hnew hgroup, pure_bind]
      exact ih h

/-- **Variables with places of their own are read back from their token**, whatever references may
lead to. -/
theorem addVariables_variablesToken (h : SoundVariables vars) :
    addVariables refs c [] (variablesToken vars) = pure vars :=
  foldlM_addVariableItem h

end PipelineExpansion.Pipeline
