import PipelineExpansion.Expression.Evaluate
import PipelineExpansion.Proofs.Outcome
import PipelineExpansion.Proofs.Template.Places

/-!
# What the values of expressions inherit

An expression has its values from the named values, or makes them anew. So a property that holds of
what is made anew, and that goes from items to their sequence and from a collection to what is in it,
goes from the named values to the value of every expression. `Inherited` says so of a property. One of them is
to bear no span but some: what is made anew has none.

## Main results

* `Inherited.ensures_evaluate`: what an expression evaluates to has an inherited property of the
  named values.
* `ensures_evaluate`: what an expression evaluates to is from where the named values are from.
-/

namespace PipelineExpansion.Expression

open Template (Origin Token)

/-- A property that values made anew have, that a sequence made anew has with its items, and that the
items and the entries of a collection have with it. -/
structure Inherited (P : Value → Prop) : Prop where
  made : ∀ v : Value, v.isScalar = true → v.origin = Origin.unknown → P v
  gathered : ∀ items : List Value, (∀ v ∈ items, P v) → P (.ofItems items)
  item : ∀ {o : Origin} {items : List Value}, P (.sequence o items) → ∀ v ∈ items, P v
  entry : ∀ {o : Origin} {entries : List Template.Entry}, P (.mapping o entries) →
    ∀ e ∈ entries, P e.2

namespace Inherited

variable {P : Value → Prop} {names : Value}

theorem ofNull (hP : Inherited P) : P .ofNull := hP.made _ rfl rfl

theorem ofBool (hP : Inherited P) (b : Bool) : P (.ofBool b) := hP.made _ rfl rfl

theorem ofText (hP : Inherited P) (s : String) : P (.ofText s) := hP.made _ rfl rfl

/-- What is found under a name is among the entries. -/
theorem lookup (hP : Inherited P) {value member : Value} {name : String} (h : P value)
    (hmember : value.lookup? name = some member) : P member := by
  obtain ⟨entries, hentries, hfind⟩ := Option.bind_eq_some_iff.mp hmember
  obtain ⟨e, he, rfl⟩ := Option.map_eq_some_iff.mp hfind
  cases value with
  | mapping o own =>
      cases hentries
      exact hP.entry h e (List.mem_of_find?_eq_some he)
  | _ => cases hentries

theorem memberOf (hP : Inherited P) {value : Value} (h : P value) (name : String) :
    P (memberOf value name) := by
  rw [Expression.memberOf]
  cases hmember : value.lookup? name with
  | none => exact hP.ofNull
  | some member => exact hP.lookup h hmember

theorem itemOf (hP : Inherited P) {value : Value} (h : P value) (index : Value) :
    P (itemOf value index) := by
  unfold Expression.itemOf
  split
  · next items _ n =>
    cases hitem : (itemNumber? n).bind (items[·]?) with
    | none => exact hP.ofNull
    | some item =>
        obtain ⟨i, -, hget⟩ := Option.bind_eq_some_iff.mp hitem
        exact hP.item h item (List.mem_of_getElem? hget)
  · split
    · exact hP.memberOf h _
    · exact hP.ofNull
  · exact hP.ofNull

/-! ### Functions -/

/-- What a function makes anew has the property, whatever it is made of. -/
theorem ensures_made {α : Type} {x : Except ValueFault α} {f : α → Value} (h : ∀ a, P (f a)) :
    Ensures (do return f (← x)) P :=
  ensures_bind_of_forall fun a => ensures_pure (h a)

theorem ensures_ordered (hP : Inherited P) (function : String) (args : List Value)
    (holds : Ordering → Bool) : Ensures (Function.ordered function args holds) P := by
  refine ensures_bind_of_forall fun operands => ?_
  exact ensures_made fun o => hP.ofBool _

theorem ensures_onText (hP : Inherited P) (function : String) (args : List Value)
    (f : String → String) : Ensures (Function.onText function args f) P := by
  refine ensures_bind_of_forall fun a => ?_
  exact ensures_made fun s => hP.ofText _

theorem ensures_onTexts (hP : Inherited P) (function own : String) (args : List Value)
    (holds : String → String → Bool) : Ensures (Function.onTexts function own args holds) P := by
  refine ensures_bind_of_forall fun operands => ensures_bind_of_forall fun s => ?_
  exact ensures_made fun t => hP.ofBool _

theorem ensures_three {function : String} {args : List Value} (h : ∀ v ∈ args, P v) :
    Ensures (Function.three function args) fun r => P r.2.1 ∧ P r.2.2 := by
  unfold Function.three
  split
  · exact ensures_ok ⟨h _ (by simp), h _ (by simp)⟩
  · exact ensures_error _ _

/-- A function hands on one of its arguments, or makes its value anew. -/
theorem ensures_call (hP : Inherited P) (name : String) {args : List Value} (h : ∀ v ∈ args, P v) :
    Ensures (Function.call name args) P := by
  rw [Function.call]
  split
  · next f _ =>
    cases f with
    | coalesce =>
        refine ensures_ok ?_
        cases hfind : args.find? fun a => !a.isNull && a.text? ≠ some "" with
        | none => exact hP.ofNull
        | some a => exact h a (List.mem_of_find?_eq_some hfind)
    | iif =>
        refine (ensures_three h).bind ?_
        rintro ⟨condition, yes, no⟩ ⟨hyes, hno⟩
        refine ensures_pure ?_
        split
        · exact hyes
        · exact hno
    | lt | le | gt | ge => exact hP.ensures_ordered _ _ _
    | lower | upper | trim => exact hP.ensures_onText _ _ _
    | contains | startsWith | endsWith => exact hP.ensures_onTexts _ _ _ _
    | eq | ne | isIn | notIn | xor | containsValue | and | or | not =>
      exact ensures_made fun a => hP.ofBool _
    | convertToJson => exact ensures_made fun a => hP.ofText _
    | length =>
        refine ensures_bind_of_forall fun a => ?_
        exact ensures_made fun n => hP.made _ rfl rfl
    | format =>
        refine ensures_bind_of_forall fun operands => ?_
        exact ensures_made fun s => hP.ofText _
    | join =>
        refine ensures_bind_of_forall fun operands => ensures_bind_of_forall fun separator => ?_
        exact ensures_made fun texts => hP.ofText _
    | replace =>
        refine ensures_bind_of_forall fun operands => ensures_bind_of_forall fun s => ?_
        refine ensures_bind_of_forall fun part => ?_
        exact ensures_made fun replacement => hP.ofText _
    | split =>
        refine ensures_bind_of_forall fun operands => ensures_bind_of_forall fun s => ?_
        refine ensures_made fun delimiter => hP.gathered _ ?_
        exact List.forall_mem_map.mpr fun p _ => hP.ofText p
  · exact ensures_error _ _

/-! ### Expressions -/

mutual

theorem ensures_eval (hP : Inherited P) (h : P names) (e : Expr) : Ensures (eval names e) P := by
  match e with
  | .null => exact ensures_ok hP.ofNull
  | .boolean b => exact ensures_ok (hP.ofBool b)
  | .number n => exact ensures_ok (hP.made _ rfl rfl)
  | .text s => exact ensures_ok (hP.ofText s)
  | .reference root parts =>
      rw [eval]
      split
      · next value hvalue => exact ensures_evalParts hP h (hP.lookup h hvalue) parts
      · exact ensures_error _ _
  | .call name args =>
      rw [eval]
      exact (ensures_evalAll hP h args).bind fun values hvalues => hP.ensures_call name hvalues
  | .index object index =>
      rw [eval]
      refine (ensures_eval hP h object).bind fun value hvalue => ?_
      exact ensures_bind_of_forall fun i => ensures_pure (hP.itemOf hvalue i)
  | .member object name =>
      rw [eval]
      exact (ensures_eval hP h object).bind fun value hvalue =>
        ensures_pure (hP.memberOf hvalue name)
  | .not e =>
      rw [eval]
      exact ensures_bind_of_forall fun value => ensures_pure (hP.ofBool _)
  | .binary op left right =>
      rw [eval]
      refine ensures_bind_of_forall fun value => ?_
      split
      · exact ensures_pure (hP.ofBool _)
      · refine ensures_bind_of_forall fun other => ?_
        exact ensures_bind_of_forall fun b => ensures_pure (hP.ofBool _)
  | .array items =>
      rw [eval]
      exact (ensures_evalAll hP h items).bind fun values hvalues =>
        ensures_pure (hP.gathered values hvalues)

theorem ensures_evalAll (hP : Inherited P) (h : P names) (es : List Expr) :
    Ensures (evalAll names es) fun values => ∀ v ∈ values, P v := by
  match es with
  | [] => exact ensures_ok (List.forall_mem_nil _)
  | e :: rest =>
      rw [evalAll]
      refine (ensures_eval hP h e).bind fun v hv => ?_
      refine (ensures_evalAll hP h rest).bind fun vs hvs => ?_
      exact ensures_pure (List.forall_mem_cons.mpr ⟨hv, hvs⟩)

theorem ensures_evalParts (hP : Inherited P) (h : P names) {value : Value} (hvalue : P value)
    (parts : List ReferencePart) : Ensures (evalParts names value parts) P := by
  match parts with
  | [] => exact ensures_ok hvalue
  | .property name :: rest =>
      rw [evalParts]
      exact ensures_evalParts hP h (hP.memberOf hvalue name) rest
  | .index e :: rest =>
      rw [evalParts]
      exact ensures_bind_of_forall fun i => ensures_evalParts hP h (hP.itemOf hvalue i) rest

end

/-- **The value of an expression has every inherited property of the named values.** -/
theorem ensures_evaluate (hP : Inherited P) (h : P names) (source : String) :
    Ensures (evaluate source names) P := by
  refine ensures_bind_of_forall fun e => ?_
  intro value hvalue
  exact hP.ensures_eval h e value (mapError_eq_ok.mp hvalue)

end Inherited

/-! ### Where values come from -/

variable {S : Set Yaml.Span} {names : Value}

theorem inherited_from : Inherited (·.From S) where
  made _ hscalar horigin := Token.from_of_isScalar hscalar (horigin ▸ Template.from_unknown)
  gathered _ hitems := Token.from_ofItems.mpr hitems
  item h := (Token.from_sequence.mp h).2
  entry h e he := ((Token.from_mapping.mp h).2 e he).2

/-- **The value of an expression is from where the named values are from.** -/
theorem ensures_evaluate (h : names.From S) (source : String) :
    Ensures (evaluate source names) (·.From S) :=
  inherited_from.ensures_evaluate h source

end PipelineExpansion.Expression
