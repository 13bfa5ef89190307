import PipelineExpansion.Expression.Segment
import PipelineExpansion.Pipeline.Variables
import PipelineExpansion.Proofs.Template.Resolve
import PipelineExpansion.Proofs.Template.Token
import PipelineExpansion.Proofs.Text.FreshName
import PipelineExpansion.Proofs.Text.Pieces
import PipelineExpansion.Template.Schema.Standard

/-!
# Variables that are known before evaluation

The variables of a template are read twice: by `staticVariables` before anything is evaluated, for the
expressions in the template, and by `addVariables` for the run. Where a section holds no expressions
and refers neither to groups nor to templates, every entry and every item makes one definition, which
the two readers put into their lists at the same place. They differ in one thing: an item without a
value defines an empty variable for the run, and none before evaluation.

## Main results

* `agrees_set`: a definition keeps the two lists alike.
* `staticVariables_agrees`: the variables of a section whose items give values are the same for both.
-/

namespace PipelineExpansion.Pipeline

open Expression (opening)
open Template (Context Entry Resolve Token)
open Template.Resolve

variable {refs : References} {c : Context} {vars : List Variable} {pairs : List (String × String)}
  {α : Type}

/-! ### Definitions -/

/-- A pair and a variable have one name, up to the case of letters, and one value. -/
def Agrees (pair : String × String) (v : Variable) : Prop :=
  ∃ name readonly, v = .value name pair.2 readonly ∧ Text.sameName pair.1 name = true

/-- A definition takes the same place in both lists. -/
theorem agrees_set (h : List.Forall₂ Agrees pairs vars) (name value : String) (readonly : Bool) :
    List.Forall₂ Agrees (setPair pairs name value)
      (setVariable vars (.value name value readonly)) := by
  induction h with
  | nil => exact .cons ⟨name, readonly, rfl, Text.sameName_iff.mpr rfl⟩ .nil
  | @cons pair v pairs vars hfirst hrest ih =>
      obtain ⟨other, readonly', rfl, hother⟩ := hfirst
      have hplace : Text.sameName other name = Text.sameName pair.1 name := by
        rw [Bool.eq_iff_iff, Text.sameName_iff, Text.sameName_iff, Text.sameName_iff.mp hother]
      have htakes : ((Variable.value name value readonly).name?.any fun n =>
          (Variable.value other pair.2 readonly').name?.any (Text.sameName · n)) =
            Text.sameName other name := rfl
      rw [setPair, setVariable, htakes, hplace]
      by_cases hsame : Text.sameName pair.1 name = true
      · rw [if_pos hsame, if_pos hsame]
        exact .cons ⟨name, readonly, rfl, hsame⟩ hrest
      · rw [if_neg hsame, if_neg hsame]
        exact .cons ⟨other, readonly', rfl, hother⟩ ih

/-- A step of the one reader makes the same definition as a step of the other. -/
def DefinesAlike (read : List (String × String) → α → Except Diagnostic (List (String × String)))
    (a : α) (vars vars' : List Variable) : Prop :=
  ∃ name value readonly, vars' = setVariable vars (.value name value readonly) ∧
    ∀ pairs, read pairs a = .ok (setPair pairs name value)

/-- Readers that make the same definitions come to the same variables. -/
theorem yields_agrees {step : List Variable → α → Resolve (List Variable)}
    {read : List (String × String) → α → Except Diagnostic (List (String × String))} {items : List α}
    (hstep : ∀ a ∈ items, ∀ vars, Yields (step vars a) (DefinesAlike read a vars))
    (h : List.Forall₂ Agrees pairs vars) :
    Yields (items.foldlM step vars) fun vars' =>
      ∃ pairs', items.foldlM read pairs = .ok pairs' ∧ List.Forall₂ Agrees pairs' vars' := by
  induction items generalizing pairs vars with
  | nil => exact yields_pure ⟨pairs, rfl, h⟩
  | cons a rest ih =>
      obtain ⟨hfirst, hrest⟩ := List.forall_mem_cons.mp hstep
      rw [List.foldlM_cons]
      refine (hfirst vars).bind fun vars' hdefines => ?_
      obtain ⟨name, value, readonly, rfl, hread⟩ := hdefines
      rw [List.foldlM_cons, hread]
      exact ih hrest (agrees_set h name value readonly)

/-! ### Entries of a mapping -/

/-- Neither the key nor the text of an entry opens an expression. -/
structure IsClosed (e : Entry) : Prop where
  key : ¬ opening <:+: e.1.name.toList
  value : ∀ s, e.2.text? = some s → ¬ opening <:+: s.toList

theorem contains_opening_iff {s : String} :
    Text.contains s "$\x7b\x7b" = false ↔ ¬ opening <:+: s.toList := by
  rw [Bool.eq_false_iff]
  exact Text.cut?_isSome.not

theorem isClosed_iff {e : Entry} : IsClosed e ↔ entryIsOpen e = false := by
  rw [entryIsOpen, hasOpenExpression, Bool.or_eq_false_iff, contains_opening_iff, Option.any_eq_false]
  constructor
  · rintro ⟨hkey, hvalue⟩
    exact ⟨hkey, fun s hs => contains_opening_iff.mpr (hvalue s hs)⟩
  · rintro ⟨hkey, hvalue⟩
    exact ⟨hkey, fun s hs => contains_opening_iff.mp (hvalue s hs)⟩

instance (e : Entry) : Decidable (IsClosed e) := decidable_of_iff _ isClosed_iff.symm

/-- An entry defines its key. -/
theorem definesAlike_entry {e : Entry} (h : IsClosed e) (vars : List Variable) :
    Ensures (addVariableEntry vars e) (DefinesAlike addStaticEntry e vars) := by
  intro vars' hadd
  obtain ⟨value, hvalue, hset⟩ := bind_eq_ok.mp hadd
  refine ⟨e.1.name, value, false, (Except.ok.inj hset).symm, fun pairs => ?_⟩
  rw [addStaticEntry, isClosed_iff.mp h, hvalue]
  rfl

/-! ### Items of a sequence -/

/-- The fields that make a definition. -/
def VariableItem.field (item : VariableItem) (what : String) : Option String :=
  if what = "name" then item.name else item.value

/-- An entry with another key leaves a field as it is. -/
theorem VariableItem.ensures_read_of_ne {what : String} (hwhat : what = "name" ∨ what = "value")
    (item : VariableItem) {e : Entry} (h : e.1.name ≠ what) :
    Ensures (item.read e) fun item' => item'.field what = item.field what := by
  obtain ⟨key, value⟩ := e
  rw [VariableItem.read]
  split
  case h_1 hkey =>
    obtain rfl : what = "value" := hwhat.resolve_left fun hname => h (hkey.trans hname.symm)
    exact ensures_bind_of_forall fun _ => ensures_pure rfl
  case h_2 hkey =>
    obtain rfl : what = "name" := hwhat.resolve_right fun hvalue => h (hkey.trans hvalue.symm)
    exact ensures_bind_of_forall fun _ => ensures_pure rfl
  case h_6 => exact ensures_ok rfl
  case h_7 => exact ensures_error _ _
  all_goals exact ensures_bind_of_forall fun _ => ensures_pure rfl

/-- An entry with its key fills a field with its text. -/
theorem VariableItem.ensures_read_of_eq {what : String} (hwhat : what = "name" ∨ what = "value")
    (item : VariableItem) {e : Entry} (h : e.1.name = what) :
    Ensures (item.read e) fun item' =>
      ∃ text, e.2.expectText what = .ok text ∧ item'.field what = some text := by
  intro item' hread
  rcases hwhat with rfl | rfl
  · simp only [read, h] at hread
    obtain ⟨text, htext, hitem⟩ := bind_eq_ok.mp hread
    exact ⟨text, htext, congrArg VariableItem.name (Except.ok.inj hitem).symm⟩
  · simp only [read, h] at hread
    obtain ⟨text, htext, hitem⟩ := bind_eq_ok.mp hread
    exact ⟨text, htext, congrArg VariableItem.value (Except.ok.inj hitem).symm⟩

/-- The number of entries with a key. -/
def keyCount (what : String) (entries : List Entry) : Nat := entries.countP (·.1.name = what)

/-- A key that is not there twice fills its field with the text of its one entry. -/
theorem VariableItem.ensures_field {what : String} (hwhat : what = "name" ∨ what = "value")
    {entries : List Entry} (hcount : keyCount what entries ≤ 1) (item : VariableItem) :
    Ensures (entries.foldlM read item) fun item' =>
      match (entries.find? (·.1.name = what)).map (·.2) with
      | some t => ∃ text, t.expectText what = .ok text ∧ item'.field what = some text
      | none => item'.field what = item.field what := by
  induction entries generalizing item with
  | nil => exact ensures_pure rfl
  | cons e rest ih =>
      rw [List.foldlM_cons]
      by_cases h : e.1.name = what
      · rw [keyCount, List.countP_cons_of_pos (by simpa using h)] at hcount
        have hrest : ∀ e' ∈ rest, e'.1.name ≠ what := by
          have hzero := List.countP_eq_zero.mp (Nat.le_zero.mp (Nat.le_of_succ_le_succ hcount))
          simpa using hzero
        rw [List.find?_cons_of_pos (by simpa using h)]
        refine (ensures_read_of_eq hwhat item h).bind fun item' hitem' => ?_
        refine ensures_foldlM_of_mem (fun e' he' s hs s' hread => ?_) hitem'
        rw [ensures_read_of_ne hwhat s (hrest e' he') s' hread]
        exact hs
      · rw [keyCount, List.countP_cons_of_neg (by simpa using h)] at hcount
        rw [List.find?_cons_of_neg (by simpa using h)]
        refine (ensures_read_of_ne hwhat item h).bind fun item' hitem' => ?_
        rw [← hitem']
        exact ih hcount item'

theorem get?_eq_find? {t : Token} {entries : List Entry} (ht : t.entries? = some entries)
    (what : String) : t.get? what = (entries.find? (·.1.name = what)).map (·.2) := by
  rw [Token.get?, ht]
  rfl

/-- The text of a field is that of the entry that is found by its key. -/
theorem VariableItem.ensures_text {what : String} (hwhat : what = "name" ∨ what = "value")
    {t : Token} {entries : List Entry} (ht : t.entries? = some entries)
    (hcount : keyCount what entries ≤ 1) :
    Ensures (entries.foldlM read {}) fun item => ∀ text, item.field what = some text →
      ∃ token, t.get? what = some token ∧ token.expectText what = .ok text := by
  intro item hread text htext
  have hfield := ensures_field hwhat hcount {} item hread
  rw [← get?_eq_find? ht] at hfield
  cases htoken : t.get? what with
  | none =>
      rw [htoken] at hfield
      have hnone : ({} : VariableItem).field what = none := by
        rcases hwhat with rfl | rfl <;> rfl
      rw [hfield, hnone] at htext
      cases htext
  | some token =>
      rw [htoken] at hfield
      obtain ⟨text', hexpect, hsome⟩ := hfield
      obtain rfl := Option.some.inj (hsome.symm.trans htext)
      exact ⟨token, rfl, hexpect⟩

/-- A key that is there once fills its field. -/
theorem VariableItem.ensures_isSome {what : String} (hwhat : what = "name" ∨ what = "value")
    {entries : List Entry} (hcount : keyCount what entries = 1) :
    Ensures (entries.foldlM read {}) fun item => (item.field what).isSome := by
  intro item hread
  have hfield := ensures_field hwhat (Nat.le_of_eq hcount) {} item hread
  have hfound : (entries.find? (·.1.name = what)).isSome := by
    rw [List.find?_isSome, ← List.countP_pos_iff]
    exact Nat.lt_of_lt_of_eq Nat.zero_lt_one hcount.symm
  obtain ⟨e, he⟩ := Option.isSome_iff_exists.mp hfound
  rw [he, Option.map_some] at hfield
  obtain ⟨text, -, hsome⟩ := hfield
  rw [hsome, Option.isSome_some]

/-- Without groups and templates, an item is a definition. -/
theorem VariableItem.ensures_plain {entries : List Entry}
    (h : ∀ e ∈ entries, e.1.name ≠ "group" ∧ e.1.name ≠ "template") :
    Ensures (entries.foldlM read {}) fun item => item.group = none ∧ item.template = none := by
  refine ensures_foldlM_of_mem (fun e he item hitem => ?_) ⟨rfl, rfl⟩
  obtain ⟨hgroup, htemplate⟩ := h e he
  obtain ⟨key, value⟩ := e
  rw [VariableItem.read]
  split
  case h_4 hkey => exact absurd hkey hgroup
  case h_5 hkey => exact absurd hkey htemplate
  case h_6 => exact ensures_ok hitem
  case h_7 => exact ensures_error _ _
  all_goals exact ensures_bind_of_forall fun _ => ensures_pure hitem

/-- The entries of an item that is a definition: all are closed, and none names a group or a
template. -/
structure IsDefinition (entries : List Entry) : Prop where
  closed : ∀ e ∈ entries, IsClosed e
  plain : ∀ e ∈ entries, e.1.name ≠ "group" ∧ e.1.name ≠ "template"

instance (entries : List Entry) : Decidable (IsDefinition entries) :=
  decidable_of_iff ((∀ e ∈ entries, IsClosed e) ∧
      ∀ e ∈ entries, e.1.name ≠ "group" ∧ e.1.name ≠ "template")
    ⟨fun h => ⟨h.1, h.2⟩, fun h => ⟨h.closed, h.plain⟩⟩

/-- The entries of an item give its value, and neither that nor its name twice. -/
structure GivesValue (entries : List Entry) : Prop where
  name : keyCount "name" entries ≤ 1
  value : keyCount "value" entries = 1

instance (entries : List Entry) : Decidable (GivesValue entries) :=
  decidable_of_iff (keyCount "name" entries ≤ 1 ∧ keyCount "value" entries = 1)
    ⟨fun h => ⟨h.1, h.2⟩, fun h => ⟨h.name, h.value⟩⟩

/-- An item that gives a value has one text for its value, and with its name that is a definition. -/
theorem VariableItem.ensures_defines {t : Token} {entries : List Entry}
    (ht : t.entries? = some entries) (h : IsDefinition entries) (hvalue : GivesValue entries) :
    Ensures (entries.foldlM read {}) fun item => ∀ name, item.name = some name →
      ∃ value, item.value = some value ∧
        ∀ pairs, addStaticItem pairs t = .ok (setPair pairs name value) := by
  intro item hread name hname
  have hsome : item.value.isSome := ensures_isSome (.inr rfl) hvalue.value item hread
  obtain ⟨value, hitem⟩ := Option.isSome_iff_exists.mp hsome
  obtain ⟨nameToken, hnameToken, hnameText⟩ :=
    ensures_text (.inl rfl) ht hvalue.name item hread name hname
  obtain ⟨valueToken, hvalueToken, hvalueText⟩ :=
    ensures_text (.inr rfl) ht (Nat.le_of_eq hvalue.value) item hread value hitem
  have hclosed : entries.any entryIsOpen = false := by
    rw [List.any_eq_false]
    exact fun e he => Bool.eq_false_iff.mp (isClosed_iff.mp (h.closed e he))
  refine ⟨value, hitem, fun pairs => ?_⟩
  rw [addStaticItem, ht]
  simp only [hclosed, hnameToken, hvalueToken, hnameText, hvalueText]
  rfl

/-- What is no mapping is no item. -/
theorem yields_addVariableItem_of_none {t : Token} {P : List Variable → Prop}
    (ht : t.entries? = none) : Yields (addVariableItem refs c vars t) P := by
  have hexpect : Ensures (t.expectMapping "variables") fun _ => False := by
    rw [Token.expectMapping, ht]
    exact ensures_error _ _
  rw [addVariableItem]
  exact (yields_ofExcept hexpect).bind fun _ hfalse => hfalse.elim

/-- An item that gives a value defines its name. -/
theorem definesAlike_item {t : Token} {entries : List Entry} (ht : t.entries? = some entries)
    (h : IsDefinition entries) (hvalue : GivesValue entries) (vars : List Variable) :
    Yields (addVariableItem refs c vars t) (DefinesAlike addStaticItem t vars) := by
  rw [addVariableItem, Token.expectMapping_eq "variables" ht, ofExcept_ok_bind]
  refine (yields_ofExcept fun item hread => And.intro (VariableItem.ensures_plain h.plain item hread)
    (VariableItem.ensures_defines ht h hvalue item hread)).bind fun item hitem => ?_
  obtain ⟨⟨hgroup, htemplate⟩, hdefines⟩ := hitem
  rw [hgroup, htemplate]
  cases hname : item.name with
  | none => exact yields_throw _ _
  | some name =>
      obtain ⟨value, hitem, hread⟩ := hdefines name hname
      exact yields_pure ⟨name, value, item.readonly, by rw [hitem, Option.getD_some], hread⟩

/-! ### Sections -/

/-- A fold without effects. -/
theorem ofExcept_foldlM {σ : Type} (step : σ → α → Except Diagnostic σ) (items : List α) (s : σ) :
    Resolve.ofExcept (items.foldlM step s) =
      items.foldlM (fun s a => Resolve.ofExcept (step s a)) s := by
  induction items generalizing s with
  | nil => rfl
  | cons a rest ih => simp only [List.foldlM_cons, ofExcept_bind, ih]

/-- A mapping, or a sequence of definitions, without expressions. -/
inductive IsPlainSection : Token → Prop
  | mapping {o : Template.Origin} {entries : List Entry} (h : ∀ e ∈ entries, IsClosed e) :
      IsPlainSection (.mapping o entries)
  | sequence {o : Template.Origin} {items : List Token}
      (h : ∀ t ∈ items, ∀ entries ∈ t.entries?, IsDefinition entries) :
      IsPlainSection (.sequence o items)

/-- The items of a section, if it is a sequence, give their values. -/
def GivesValues (t : Token) : Prop :=
  ∀ items ∈ t.items?, ∀ item ∈ items, ∀ entries ∈ item.entries?, GivesValue entries

instance (t : Token) : Decidable (GivesValues t) :=
  inferInstanceAs (Decidable (∀ items ∈ t.items?, ∀ item ∈ items, ∀ entries ∈ item.entries?,
    GivesValue entries))

/-- **What is known of the variables before evaluation is what they are for the run.** -/
theorem staticVariables_agrees {t : Token} (h : IsPlainSection t) (hvalues : GivesValues t)
    {j j' : Template.Journal} (hrun : (addVariables refs c [] t).run.run j = some (.ok vars, j')) :
    ∃ pairs, staticVariables t = .ok pairs ∧ List.Forall₂ Agrees pairs vars := by
  cases h with
  | @mapping o entries h =>
      have hread : Yields (Resolve.ofExcept (entries.foldlM addVariableEntry [])) fun vars =>
          ∃ pairs, entries.foldlM addStaticEntry [] = .ok pairs ∧ List.Forall₂ Agrees pairs vars := by
        rw [ofExcept_foldlM]
        exact yields_agrees (fun e he vars => yields_ofExcept (definesAlike_entry (h e he) vars)) .nil
      exact hread j vars j' hrun
  | @sequence o items h =>
      have hread : Yields (items.foldlM (addVariableItem refs c) []) fun vars =>
          ∃ pairs, items.foldlM addStaticItem [] = .ok pairs ∧ List.Forall₂ Agrees pairs vars := by
        refine yields_agrees (fun t ht vars => ?_) .nil
        cases hentries : t.entries? with
        | none => exact yields_addVariableItem_of_none hentries
        | some entries =>
            have hvalue := hvalues items rfl t ht entries hentries
            exact definesAlike_item hentries (h t ht entries hentries) hvalue vars
      exact hread j vars j' hrun

/-- A context in which no file can be read. -/
def fileless : Context where
  files := .inMemory []
  schema := .standard

/-- A name that is set twice, in other letters the second time. -/
def toolVariables : Token := .ofItems [
  .ofPairs [("name", .ofText "tool"), ("value", .ofText "old"), ("readonly", .ofBool true)],
  .ofPairs [("value", .ofText "x"), ("name", .ofText "mode")],
  .ofPairs [("name", .ofText "Tool"), ("value", .ofText "new")]]

/-- Both readings give the name its last value at its first place. -/
theorem staticVariables_agrees_toolVariables :
    IsPlainSection toolVariables ∧ GivesValues toolVariables ∧
      (addVariables .none fileless [] toolVariables).run.run {} =
        some (.ok [.value "Tool" "new" false, .value "mode" "x" false], {}) ∧
      ∃ pairs, staticVariables toolVariables = .ok pairs ∧
        List.Forall₂ Agrees pairs [.value "Tool" "new" false, .value "mode" "x" false] := by
  have hplain : IsPlainSection toolVariables := .sequence (by decide)
  have hvalues : GivesValues toolVariables := by decide
  have hrun : (addVariables .none fileless [] toolVariables).run.run {} =
      some (.ok [.value "Tool" "new" false, .value "mode" "x" false], {}) := rfl
  exact ⟨hplain, hvalues, hrun, staticVariables_agrees hplain hvalues hrun⟩

/-- An item without a value. -/
def valueless : Token := .ofItems [.ofPairs [("name", .ofText "a")]]

/-- The item defines an empty variable for the run, and nothing before evaluation. -/
theorem staticVariables_valueless :
    IsPlainSection valueless ∧
      (addVariables .none fileless [] valueless).run.run {} = some (.ok [.value "a" "" false], {}) ∧
      staticVariables valueless = .ok [] ∧ ¬ List.Forall₂ Agrees [] [.value "a" "" false] :=
  ⟨.sequence (by decide), rfl, rfl, nofun⟩

end PipelineExpansion.Pipeline
