import PipelineExpansion.Expression.Evaluate
import PipelineExpansion.Proofs.Expression.Equality
import PipelineExpansion.Proofs.Template.FileNumber

/-!
# Expressions do not see the numbers of files

The values of expressions are tokens, and what an expression yields depends on what they hold alone.
Against values without the numbers of files it yields the same value, without the number, or fails in
the same way.

## Main results

* `evaluate_bare`: the value of an expression against bare values.
-/

namespace PipelineExpansion.Expression

open Template.Token (bare)

/-! ### Comparisons -/

/-- The numbers of files are parts of the places, which equality does not see. -/
@[simp] theorem looselyEqual_bare (left right : Value) :
    looselyEqual left.bare right.bare = looselyEqual left right := by
  rw [← looselyEqual_unplaced, Template.Token.unplaced_bare, Template.Token.unplaced_bare,
    looselyEqual_unplaced]

@[simp] theorem order_bare (left right : Value) :
    order left.bare right.bare = order left right := by
  cases left with
  | number o n => simp [bare, order]
  | _ =>
      simp only [bare, order, Template.Token.display?_bare, Template.Token.kindName_bare]
      rfl

/-- Null stands for what is not there. -/
theorem getD_map_bare (v : Option Value) : (v.map bare).getD .ofNull = (v.getD .ofNull).bare := by
  cases v <;> rfl

/-! ### Functions -/

namespace Function

@[simp] theorem textOf_bare (function : String) (v : Value) :
    textOf function v.bare = textOf function v := by
  simp [textOf]

@[simp] theorem smallTextOf_bare (function : String) (v : Value) :
    smallTextOf function v.bare = smallTextOf function v := by
  simp [smallTextOf]

@[simp] theorem one_bare (function : String) (args : List Value) :
    one function (args.map bare) = bare <$> one function args := by
  rcases args with _ | ⟨a, _ | ⟨b, rest⟩⟩ <;> simp [one]

@[simp] theorem two_bare (function : String) (args : List Value) :
    two function (args.map bare) = (fun p => (p.1.bare, p.2.bare)) <$> two function args := by
  rcases args with _ | ⟨a, _ | ⟨b, _ | ⟨c, rest⟩⟩⟩ <;> simp [two]

@[simp] theorem three_bare (function : String) (args : List Value) :
    three function (args.map bare) =
      (fun p => (p.1.bare, p.2.1.bare, p.2.2.bare)) <$> three function args := by
  rcases args with _ | ⟨a, _ | ⟨b, _ | ⟨c, _ | ⟨d, rest⟩⟩⟩⟩ <;> simp [three]

@[simp] theorem oneOrMore_bare (function : String) (args : List Value) :
    oneOrMore function (args.map bare) =
      (fun p => (p.1.bare, p.2.map bare)) <$> oneOrMore function args := by
  cases args <;> rfl

@[simp] theorem twoOrMore_bare (function : String) (args : List Value) :
    twoOrMore function (args.map bare) = List.map bare <$> twoOrMore function args := by
  unfold twoOrMore
  rw [List.length_map]
  split <;> rfl

@[simp] theorem bare_truth (b : Bool) : (truth b).bare = truth b := rfl

@[simp] theorem ordered_bare (function : String) (args : List Value) (holds : Ordering → Bool) :
    ordered function (args.map bare) holds = bare <$> ordered function args holds := by
  simp [ordered]

@[simp] theorem onText_bare (function : String) (args : List Value) (f : String → String) :
    onText function (args.map bare) f = bare <$> onText function args f := by
  simp [onText]

@[simp] theorem onTexts_bare (function own : String) (args : List Value)
    (holds : String → String → Bool) :
    onTexts function own (args.map bare) holds = bare <$> onTexts function own args holds := by
  simp [onTexts]

@[simp] theorem pieceText_bare (values : List Value) (p : Piece) :
    pieceText (values.map bare) p = pieceText values p := by
  cases p with
  | char c => rfl
  | placeholder body =>
      cases hindex : placeholderIndex? body with
      | none => simp [pieceText, hindex]
      | some n =>
          cases hvalue : values[(n + 1) % Nat.pow 2 64]? with
          | none => simp [pieceText, hindex, hvalue]
          | some a => simp [pieceText, hindex, hvalue]

@[simp] theorem formatted_bare (template : Value) (args : List Value) :
    formatted template.bare (args.map bare) = formatted template args := by
  have hpieces := funext (pieceText_bare (template :: args))
  rw [List.map_cons] at hpieces
  simp [formatted, hpieces]

@[simp] theorem joinTexts_bare (v : Value) : joinTexts v.bare = joinTexts v := by
  cases v with
  | sequence o items => simp [joinTexts, List.mapM_map, Function.comp_def]
  | mapping o entries =>
      exact congrArg (· >>= fun s => pure [s]) (textOf_bare "join" (.mapping o entries))
  | _ => rfl

@[simp] theorem lengthOf_bare (v : Value) : lengthOf v.bare = lengthOf v := by
  cases v <;> simp [bare, lengthOf]

@[simp] theorem holdsValue_bare (collection value : Value) :
    holdsValue collection.bare value.bare = holdsValue collection value := by
  cases collection <;> simp [bare, holdsValue, Function.comp_def]

theorem apply_bare (f : Name) (name : String) (args : List Value) :
    apply f name (args.map bare) = bare <$> apply f name args := by
  cases f with
  | coalesce => simp [apply, Function.comp_def, getD_map_bare]
  | iif => simp [apply, apply_ite bare]
  | _ => simp [apply, Function.comp_def]

@[simp] theorem call_bare (name : String) (args : List Value) :
    call name (args.map bare) = bare <$> call name args := by
  unfold call
  split
  · exact apply_bare _ name args
  · rfl

end Function

/-! ### Expressions -/

@[simp] theorem memberOf_bare (object : Value) (name : String) :
    memberOf object.bare name = (memberOf object name).bare := by
  simp only [memberOf, Template.Token.lookup?_bare, getD_map_bare]

@[simp] theorem itemOf_bare (object index : Value) :
    itemOf object.bare index.bare = (itemOf object index).bare := by
  cases object with
  | sequence o items =>
      cases index with
      | number o' n =>
          simp only [itemOf, bare, Template.bareItems_eq, List.getElem?_map]
          rw [← getD_map_bare, Option.map_bind]
          rfl
      | _ => simp [itemOf, bare]
  | mapping o entries =>
      have hmember (name : String) := memberOf_bare (.mapping o entries) name
      simp only [Template.Token.bare_mapping] at hmember
      simp only [itemOf, Template.Token.bare_mapping, Template.Token.display?_bare]
      cases index.display? with
      | none => rfl
      | some name => exact hmember name
  | _ => rfl

@[simp] theorem Operator.decides_bare (op : Operator) (left : Value) :
    op.decides left.bare = op.decides left := by
  cases op <;> simp [decides]

@[simp] theorem Operator.apply_bare (op : Operator) (left right : Value) :
    op.apply left.bare right.bare = op.apply left right := by
  cases op <;> simp [Operator.apply]

mutual

theorem eval_bare (names : Value) (e : Expr) : eval names.bare e = bare <$> eval names e := by
  match e with
  | .null | .boolean _ | .number _ | .text _ => rfl
  | .reference root parts =>
      simp only [eval, Template.Token.lookup?_bare]
      cases names.lookup? root with
      | none => rfl
      | some value => exact evalParts_bare names value parts
  | .call name args => simp [eval, evalAll_bare names args]
  | .index object index => simp [eval, eval_bare names object, eval_bare names index]
  | .member object name => simp [eval, eval_bare names object]
  | .not e => simp [eval, eval_bare names e]
  | .binary op left right =>
      simp only [eval, eval_bare names left, eval_bare names right, bind_map_left, map_bind,
        Operator.decides_bare, Operator.apply_bare]
      refine congrArg _ (funext fun value => ?_)
      cases op.decides value <;> simp
  | .array items => simp [eval, evalAll_bare names items]

theorem evalAll_bare (names : Value) (es : List Expr) :
    evalAll names.bare es = List.map bare <$> evalAll names es := by
  match es with
  | [] => rfl
  | e :: rest => simp [evalAll, eval_bare names e, evalAll_bare names rest]

theorem evalParts_bare (names value : Value) (parts : List ReferencePart) :
    evalParts names.bare value.bare parts = bare <$> evalParts names value parts := by
  match parts with
  | [] => rfl
  | .property name :: rest =>
      simp only [evalParts, memberOf_bare]
      exact evalParts_bare names _ rest
  | .index e :: rest =>
      simp only [evalParts, eval_bare names e, bind_map_left, map_bind, itemOf_bare]
      refine congrArg _ (funext fun index => ?_)
      exact evalParts_bare names _ rest

end

/-- **Against bare values an expression yields its value, bare.** -/
theorem evaluate_bare (source : String) (names : Value) :
    evaluate source names.bare = bare <$> evaluate source names := by
  simp only [evaluate, eval_bare, map_bind]
  refine congrArg _ (funext fun e => ?_)
  cases eval names e <;> rfl

end PipelineExpansion.Expression
