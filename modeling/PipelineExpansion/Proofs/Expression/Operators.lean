import PipelineExpansion.Expression.Evaluate
import PipelineExpansion.Proofs.Outcome
import PipelineExpansion.Proofs.Text.FreshName

/-!
# Operators and the functions of their names

What an operator does, a function does as well. A comparison or a negation is the call of its function on the
operands: they are evaluated in the same order, so the faults are the same too. A conjunction or a disjunction
looks at its right operand only where the left one does not decide it, while the function evaluates both.
So it yields what the function yields, and yields something more often.

## Main results

* `eval_binary_of_compares`: a comparison is the call of its function.
* `eval_binary_of_call`: a conjunction or a disjunction has the value of its function, if that has one.
* `eval_operator_agrees`: the operators and the functions agree.
-/

namespace PipelineExpansion.Expression

variable {names v x : Value} {op : Operator} {f : String} {a b : Expr}

/-- The function of the same meaning as an operator. -/
def Operator.function : Operator → Function.Name
  | eq => .eq
  | ne => .ne
  | lt => .lt
  | le => .le
  | gt => .gt
  | ge => .ge
  | and => .and
  | or => .or

/-- The name of that function. -/
def Operator.functionName : Operator → String
  | eq => "eq"
  | ne => "ne"
  | lt => "lt"
  | le => "le"
  | gt => "gt"
  | ge => "ge"
  | and => "and"
  | or => "or"

/-- Whether an operator compares its operands, and so looks at both. -/
def Operator.compares : Operator → Bool
  | and | or => false
  | _ => true

/-! ### Calls -/

-- the equations of the evaluation, worked out here once for the proofs below
attribute [local simp] eval

/-- The case of its letters does not matter to the name of a function. -/
theorem Function.Name.ofString?_congr {g : String} (h : Text.sameName f g = true) :
    Function.Name.ofString? f = Function.Name.ofString? g := by
  rw [ofString?, ofString?, Text.sameName_iff.mp h]

theorem call_eq_apply {g : String} (function : Function.Name) (h : Text.sameName f g = true)
    (hfunction : Function.Name.ofString? g = some function) (args : List Value) :
    Function.call f args = Function.apply function f args := by
  rw [Function.call, Function.Name.ofString?_congr h, hfunction]

theorem Operator.call_functionName (h : Text.sameName f op.functionName = true) (args : List Value) :
    Function.call f args = Function.apply op.function f args :=
  call_eq_apply op.function h (by cases op <;> rfl) args

/-- Arguments are evaluated from left to right, as operands are. -/
theorem eval_call_pair (names : Value) (f : String) (a b : Expr) :
    eval names (.call f [a, b]) =
      eval names a >>= fun x => eval names b >>= fun y => Function.call f [x, y] := by
  simp only [eval, evalAll, bind_assoc, pure_bind]
  rfl

theorem eval_call_single (names : Value) (f : String) (a : Expr) :
    eval names (.call f [a]) = eval names a >>= fun x => Function.call f [x] := by
  simp only [eval, evalAll, bind_assoc, pure_bind]
  rfl

/-! ### Comparisons -/

theorem ordered_pair (f : String) (x y : Value) (holds : Ordering → Bool) :
    Function.ordered f [x, y] holds =
      (order x y).map holds >>= fun holds => pure (.ofBool holds) := by
  change (order x y >>= fun o => pure (Function.truth (holds o))) = _
  cases order x y <;> rfl

/-- On two values a comparison is its function. -/
theorem Operator.apply_function (h : op.compares = true) (f : String) (x y : Value) :
    Function.apply op.function f [x, y] = op.apply x y >>= fun holds => pure (.ofBool holds) := by
  cases op with
  | and | or => cases h
  | eq | ne => rfl
  | lt | le | gt | ge => exact ordered_pair f x y _

theorem Operator.decides_of_compares (h : op.compares = true) (x : Value) : op.decides x = none := by
  cases op with
  | and | or => cases h
  | _ => rfl

/-- **A comparison is the call of its function**, whether that yields a value or fails. -/
theorem eval_binary_of_compares (h : op.compares = true)
    (hf : Text.sameName f op.functionName = true) (names : Value) (a b : Expr) :
    eval names (.binary op a b) = eval names (.call f [a, b]) := by
  rw [eval_call_pair, eval]
  refine congrArg _ (funext fun x => ?_)
  simp only [Operator.decides_of_compares h x, Operator.call_functionName hf,
    Operator.apply_function h]

/-! ### Conjunctions and disjunctions -/

/-- Where the left operand decides, the right one is not evaluated. -/
theorem eval_binary_of_decides {value : Bool} (hx : eval names a = .ok x)
    (h : op.decides x = some value) (b : Expr) :
    eval names (.binary op a b) = .ok (.ofBool value) := by
  simp only [eval, hx, bind, Except.bind, h, pure, Except.pure]

/-- On two values the function of a conjunction or a disjunction yields what the left one decides, or else the
right one. -/
theorem Operator.apply_function_logical (h : op.compares = false) (f : String) (x y : Value) :
    Function.apply op.function f [x, y] = .ok (.ofBool ((op.decides x).getD y.truthy)) := by
  cases op with
  | and | or =>
      cases hx : x.truthy <;>
        simp [function, Function.apply, Function.twoOrMore, Function.truth, decides, hx, pure, bind,
          Except.pure, Except.bind]
  | _ => cases h

/-- **A conjunction or a disjunction has the value of its function**, where that has one. -/
theorem eval_binary_of_call (h : op.compares = false) (hf : Text.sameName f op.functionName = true)
    (hcall : eval names (.call f [a, b]) = .ok v) : eval names (.binary op a b) = .ok v := by
  rw [eval_call_pair] at hcall
  obtain ⟨x, hx, hcall⟩ := bind_eq_ok.mp hcall
  obtain ⟨y, hy, hcall⟩ := bind_eq_ok.mp hcall
  rw [Operator.call_functionName hf, Operator.apply_function_logical h] at hcall
  obtain rfl := Except.ok.inj hcall
  cases hdecides : op.decides x with
  | some value => exact eval_binary_of_decides hx hdecides b
  | none =>
      have happly : op.apply x y = .ok y.truthy := by
        cases op with
        | and | or => rfl
        | _ => cases h
      simp only [eval, hx, hy, bind, Except.bind, hdecides, happly]
      rfl

/-! ### Agreement -/

theorem eval_not_eq_call (hf : Text.sameName f "not" = true) (names : Value) (a : Expr) :
    eval names (.not a) = eval names (.call f [a]) := by
  rw [eval_call_single, eval]
  refine congrArg _ (funext fun x => ?_)
  rw [call_eq_apply .not hf rfl]
  rfl

/-- **The operators and the functions agree**, whatever the operands evaluate to and wherever they fail. A
comparison and a negation are the calls of their functions. A conjunction or a disjunction has the value of
its function where that has one, and also where its left operand decides it, whatever becomes of the
right one. -/
theorem eval_operator_agrees (names : Value) (a b : Expr) :
    (∀ op f, op.compares = true → Text.sameName f op.functionName = true →
      eval names (.binary op a b) = eval names (.call f [a, b])) ∧
    (∀ f, Text.sameName f "not" = true → eval names (.not a) = eval names (.call f [a])) ∧
    (∀ op f v, op.compares = false → Text.sameName f op.functionName = true →
      eval names (.call f [a, b]) = .ok v → eval names (.binary op a b) = .ok v) ∧
    (∀ x, eval names a = .ok x →
      (x.truthy = false → eval names (.binary .and a b) = .ok (.ofBool false)) ∧
      (x.truthy = true → eval names (.binary .or a b) = .ok (.ofBool true))) := by
  refine ⟨fun op f h hf => eval_binary_of_compares h hf names a b,
    fun f hf => eval_not_eq_call hf names a, fun op f v h hf => eval_binary_of_call h hf,
    fun x hx => ⟨fun hfalse => ?_, fun htrue => ?_⟩⟩
  · exact eval_binary_of_decides hx (by rw [Operator.decides, hfalse]; rfl) b
  · exact eval_binary_of_decides hx (by rw [Operator.decides, htrue]; rfl) b

/-- No name stands for a value. -/
def noNames : Value := .ofPairs []

/-- The functions are called in letters of either case, and the unknown name on the right is not looked at. -/
theorem eval_operator_agrees_unknownRight :
    eval noNames (.binary .lt (.text "a") (.text "B")) =
        eval noNames (.call "LT" [.text "a", .text "B"]) ∧
      eval noNames (.not (.text "a")) = eval noNames (.call "Not" [.text "a"]) ∧
      eval noNames (.binary .and (.text "a") (.text "B")) = .ok (.ofBool true) ∧
      eval noNames (.binary .and (.boolean false) (.reference "x" [])) = .ok (.ofBool false) ∧
      eval noNames (.binary .or (.boolean true) (.reference "x" [])) = .ok (.ofBool true) := by
  obtain ⟨hcompares, hnot, hlogical, -⟩ :=
    eval_operator_agrees noNames (.text "a") (.text "B")
  have hcall : eval noNames (.call "and" [.text "a", .text "B"]) = .ok (.ofBool true) := rfl
  obtain ⟨-, -, -, hfalse⟩ := eval_operator_agrees noNames (.boolean false) (.reference "x" [])
  obtain ⟨-, -, -, htrue⟩ := eval_operator_agrees noNames (.boolean true) (.reference "x" [])
  exact ⟨hcompares .lt "LT" rfl (by decide), hnot "Not" (by decide),
    hlogical .and "and" _ rfl (by decide) hcall, (hfalse _ rfl).1 rfl, (htrue _ rfl).2 rfl⟩

end PipelineExpansion.Expression
