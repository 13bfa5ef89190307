import Mathlib.Data.List.Nodup
import Mathlib.Data.List.Perm.Subperm
import PipelineExpansion.Proofs.Pipeline.TokenForm
import PipelineExpansion.Proofs.Template.Resolve

/-!
# Binding parameters

A declaration gives every parameter that it declares a value: the one that is provided for its name,
or its default, brought to its type. `Binds` says so as a relation, without regard to how
`bindParameters` goes about it, and `run_bindDeclaration_eq_ok` says that the two agree.

Provided values for names that are not declared are noticed by counting: as many of the bound names
must be provided as there are provided values. A count stands for the names themselves as long as
no name is counted twice (`countP_mem_eq_length_iff`). A sequence may declare a name twice.

## Main results

* `bindParameters_of_binds`: what comes of binding a declaration whose values are fine is decided
  by the count alone; where no name is declared twice, the names that are provided decide it.
* `repeatedName_bindsUndeclared`: where a name is declared twice, they do not.
-/

namespace PipelineExpansion.Pipeline
open Template (Context Entry Journal Resolve Token)

variable {refs : References} {c : Context} {provided : List Entry} {j j' : Journal}

/-! ### What values parameters take -/

/-- A value comes to another when it is brought to a type. -/
def ComesTo (refs : References) (c : Context) (t : Token) (type : String) (j : Journal)
    (value : Token) (j' : Journal) : Prop :=
  (convert refs c t type).run.run j = some (.ok value, j')

/-- A declared parameter takes the value that is provided for its name, or its default where there
is none. Both are brought to its type, and the one it takes is among those that are allowed. -/
inductive TakesValue (refs : References) (c : Context) (provided : List Entry) (t : Token)
    (j : Journal) : String × Token → Journal → Prop where
  | given {name : String} {p : Parameter} {default given value : Token} {j₁ j₂ : Journal}
      (hparameter : Parameter.ofToken? t = .ok (name, p))
      (hdefault : ComesTo refs c p.default p.type j default j₁)
      (hgiven : provided? provided name = some given)
      (hvalue : ComesTo refs c given p.type j₁ value j₂)
      (hallowed : p.check name value = .ok ()) : TakesValue refs c provided t j (name, value) j₂
  | default {name : String} {p : Parameter} {value : Token} {j₁ : Journal}
      (hparameter : Parameter.ofToken? t = .ok (name, p))
      (hvalue : ComesTo refs c p.default p.type j value j₁)
      (hgiven : provided? provided name = none)
      (hallowed : p.check name value = .ok ()) : TakesValue refs c provided t j (name, value) j₁

/-- Declared parameters take their values one after another. -/
inductive TakeValues (refs : References) (c : Context) (provided : List Entry) :
    List Token → Journal → List (String × Token) → Journal → Prop where
  | nil {j : Journal} : TakeValues refs c provided [] j [] j
  | cons {t : Token} {rest : List Token} {j j₁ j₂ : Journal} {own : String × Token}
      {others : List (String × Token)} (hown : TakesValue refs c provided t j own j₁)
      (hothers : TakeValues refs c provided rest j₁ others j₂) :
      TakeValues refs c provided (t :: rest) j (own :: others) j₂

/-- The parameters of a declaration take their values. In a mapping they have no type. -/
inductive Binds (refs : References) (c : Context) (provided : List Entry) :
    Option Token → Journal → List (String × Token) → Journal → Prop where
  | absent {j : Journal} : Binds refs c provided none j [] j
  | null {o : Template.Origin} {j : Journal} : Binds refs c provided (some (.null o)) j [] j
  | mapping {o : Template.Origin} {entries : List Entry} {j : Journal} :
      Binds refs c provided (some (.mapping o entries)) j
        (entries.map (bindEntry provided)) j
  | sequence {o : Template.Origin} {items : List Token} {j j' : Journal}
      {bound : List (String × Token)} (h : TakeValues refs c provided items j bound j') :
      Binds refs c provided (some (.sequence o items)) j bound j'

/-! ### Binding is taking values -/

theorem run_bindDeclared_eq_ok {t : Token} {b : String × Token} :
    (bindDeclared refs c provided t).run.run j = some (.ok b, j') ↔
      TakesValue refs c provided t j b j' := by
  simp only [bindDeclared, Resolve.run_bind_eq_ok, Resolve.run_ofExcept_eq_ok]
  constructor
  · rintro ⟨⟨name, p⟩, j₁, ⟨hparameter, rfl⟩, default, j₂, hdefault, hrun⟩
    split at hrun
    · next given hgiven =>
      simp only [Resolve.run_bind_eq_ok, Resolve.run_ofExcept_eq_ok] at hrun
      obtain ⟨value, j₃, hvalue, _, j₄, ⟨hallowed, rfl⟩, hpair⟩ := hrun
      cases hpair
      exact .given hparameter hdefault hgiven hvalue hallowed
    · next hgiven =>
      simp only [pure_bind, Resolve.run_bind_eq_ok, Resolve.run_ofExcept_eq_ok] at hrun
      obtain ⟨_, j₄, ⟨hallowed, rfl⟩, hpair⟩ := hrun
      cases hpair
      exact .default hparameter hdefault hgiven hallowed
  · intro htakes
    cases htakes with
    | given hparameter hdefault hgiven hvalue hallowed =>
        refine ⟨_, _, ⟨hparameter, rfl⟩, _, _, hdefault, ?_⟩
        simp only [hgiven, Resolve.run_bind_eq_ok, Resolve.run_ofExcept_eq_ok]
        exact ⟨_, _, hvalue, _, _, ⟨hallowed, rfl⟩, rfl⟩
    | default hparameter hdefault hgiven hallowed =>
        refine ⟨_, _, ⟨hparameter, rfl⟩, _, _, hdefault, ?_⟩
        simp only [hgiven, pure_bind, Resolve.run_bind_eq_ok, Resolve.run_ofExcept_eq_ok]
        exact ⟨_, _, ⟨hallowed, rfl⟩, rfl⟩

theorem run_bindAll_eq_ok {items : List Token} {bound : List (String × Token)} :
    (bindAll refs c provided items).run.run j = some (.ok bound, j') ↔
      TakeValues refs c provided items j bound j' := by
  induction items generalizing j bound with
  | nil =>
      constructor
      · rintro ⟨⟩
        exact .nil
      · rintro ⟨⟩
        rfl
  | cons t rest ih =>
      rw [bindAll, Resolve.run_bind_eq_ok]
      constructor
      · rintro ⟨own, j₁, hown, hrun⟩
        obtain ⟨others, j₂, hothers, hpair⟩ := Resolve.run_bind_eq_ok.mp hrun
        cases hpair
        exact .cons (run_bindDeclared_eq_ok.mp hown) (ih.mp hothers)
      · rintro (_ | ⟨hown, hothers⟩)
        exact ⟨_, _, run_bindDeclared_eq_ok.mpr hown,
          Resolve.run_bind_eq_ok.mpr ⟨_, _, ih.mpr hothers, rfl⟩⟩

theorem run_bindDeclaration_eq_ok {declared : Option Token} {bound : List (String × Token)} :
    (bindDeclaration refs c provided declared).run.run j = some (.ok bound, j') ↔
      Binds refs c provided declared j bound j' := by
  rcases declared with _ | t
  · constructor
    · rintro ⟨⟩
      exact .absent
    · rintro ⟨⟩
      rfl
  · cases t with
    | null o =>
        constructor
        · rintro ⟨⟩
          exact .null
        · rintro ⟨⟩
          rfl
    | mapping o entries =>
        constructor
        · rintro ⟨⟩
          exact .mapping
        · rintro ⟨⟩
          rfl
    | sequence o items =>
        have hitems : bindDeclaration refs c provided (some (.sequence o items))
            = bindAll refs c provided items := rfl
        rw [hitems, run_bindAll_eq_ok]
        constructor
        · exact .sequence
        · rintro ⟨⟩
          assumption
    | _ =>
        constructor
        · rintro ⟨⟩
        · rintro ⟨⟩

/-! ### Counting names -/

/-- Of distinct names, as many as are wanted are among the wanted ones just if all wanted names are
there. -/
theorem countP_mem_eq_length_iff {names wanted : List String} (hnames : names.Nodup)
    (hwanted : wanted.Nodup) :
    names.countP (· ∈ wanted) = wanted.length ↔ ∀ name ∈ wanted, name ∈ names := by
  have hused : (names.filter (· ∈ wanted)).Nodup := hnames.filter _
  have hsub : names.filter (· ∈ wanted) ⊆ wanted := fun name hname =>
    of_decide_eq_true (List.mem_filter.mp hname).2
  rw [List.countP_eq_length_filter]
  constructor
  · intro hlength name hname
    have hperm := (List.subperm_of_subset hused hsub).perm_of_length_le (Nat.le_of_eq hlength.symm)
    exact (List.mem_filter.mp (hperm.symm.subset hname)).1
  · intro hall
    have hback : wanted ⊆ names.filter (· ∈ wanted) := fun name hname =>
      List.mem_filter.mpr ⟨hall name hname, decide_eq_true hname⟩
    exact Nat.le_antisymm (List.subperm_of_subset hused hsub).length_le
      (List.subperm_of_subset hwanted hback).length_le

theorem provided?_isSome (provided : List Entry) (name : String) :
    (provided? provided name).isSome = decide (name ∈ provided.map (·.1.name)) := by
  rw [provided?, Option.isSome_map, Bool.eq_iff_iff, List.find?_isSome]
  simp

/-- The diagnostic of provided names that are not among those that are bound. -/
def undeclaredFault (provided : List Entry) (bound : List (String × Token)) : Diagnostic :=
  .meaning ("Provided undeclared parameters: " ++ Text.join ", "
    ((provided.map (·.1.name)).filter fun name => !bound.any (·.1 = name)))

/-- How many of the bound names are provided. -/
def used (provided : List Entry) (bound : List (String × Token)) : Nat :=
  (bound.map (·.1)).countP (· ∈ provided.map (·.1.name))

/-- The entries of provided values; null has none. -/
def providedOf : Option Token → Except Diagnostic (List Entry)
  | none | some (.null _) => .ok []
  | some t => t.expectMapping "parameters"

/-- What becomes of bound parameters: as many of them must be provided as there are provided values. -/
def settle (provided : List Entry) (bound : List (String × Token)) : Except Diagnostic Token :=
  if used provided bound = provided.length then .ok (.ofPairs bound)
  else .error (undeclaredFault provided bound)

/-- To bind parameters is to bind the declaration and to count. -/
theorem bindParameters_eq (refs : References) (c : Context) (declared values : Option Token) :
    bindParameters refs c declared values =
      Resolve.ofExcept (providedOf values) >>= fun provided =>
        bindDeclaration refs c provided declared >>= fun bound =>
          Resolve.ofExcept (settle provided bound) := by
  have hsettle (provided : List Entry) (bound : List (String × Token)) :
      (if (bound.countP fun b => (provided? provided b.1).isSome) ≠ provided.length then do
        throw (undeclaredFault provided bound)
        pure (Token.ofPairs bound)
      else pure (Token.ofPairs bound)) = Resolve.ofExcept (settle provided bound) := by
    have hused : (bound.countP fun b => (provided? provided b.1).isSome)
        = used provided bound := by
      rw [used, List.countP_map]
      simp only [provided?_isSome, Function.comp_def]
    rw [hused, settle]
    by_cases hcount : used provided bound = provided.length
    · rw [if_neg (not_not.mpr hcount), if_pos hcount]
      rfl
    · rw [if_pos hcount, if_neg hcount]
      rfl
  simp only [← hsettle]
  rcases values with _ | _ | _ | _ | _ | _ | _ <;> rfl

/-- The count decides what becomes of values that are fine. -/
theorem run_bindParameters {declared : Option Token} {bound : List (String × Token)}
    {o : Template.Origin} (h : Binds refs c provided declared j bound j') :
    (bindParameters refs c declared (some (.mapping o provided))).run.run j =
      some (settle provided bound, j') := by
  have hprovided : providedOf (some (.mapping o provided)) = .ok provided := rfl
  rw [bindParameters_eq, hprovided]
  simp only [Resolve.run_bind, Resolve.run_ofExcept, run_bindDeclaration_eq_ok.mpr h]

/-- **Where no name is declared twice, values are refused exactly if one is provided for a name that is
not declared.** In any case they are refused if the count of the bound names that are provided is
not the number of provided values, and otherwise every parameter is bound to the value it takes. -/
theorem bindParameters_of_binds {declared : Option Token} {bound : List (String × Token)}
    {o : Template.Origin} (hkeys : (provided.map (·.1.name)).Nodup)
    (h : Binds refs c provided declared j bound j') :
    (bindParameters refs c declared (some (.mapping o provided))).run.run j =
        some (if used provided bound = provided.length then .ok (.ofPairs bound)
          else .error (undeclaredFault provided bound), j') ∧
      ((bound.map (·.1)).Nodup →
        ((∃ r j₁, (bindParameters refs c declared (some (.mapping o provided))).run.run j
            = some (.ok r, j₁)) ↔ ∀ e ∈ provided, e.1.name ∈ bound.map (·.1))) := by
  refine ⟨run_bindParameters h, fun hnames => ?_⟩
  have hcount : used provided bound = provided.length ↔
      ∀ e ∈ provided, e.1.name ∈ bound.map (·.1) := by
    have hcount := countP_mem_eq_length_iff hnames hkeys
    rwa [List.length_map, List.forall_mem_map] at hcount
  rw [← hcount, run_bindParameters h, settle]
  constructor
  · rintro ⟨r, j₁, hrun⟩
    by_contra hne
    rw [if_neg hne] at hrun
    cases hrun
  · intro heq
    exact ⟨_, _, by rw [if_pos heq]⟩

/-- A number that is left open, and a text with a default and with two values that are allowed. -/
def countAndTarget : Token := .ofItems [
  .ofPairs [("name", .ofText "count"), ("type", .ofText "number")],
  .ofPairs [("name", .ofText "target"), ("type", .ofText "string"), ("default", .ofText "dev"),
    ("values", .ofItems [.ofText "dev", .ofText "prod"])]]

/-- A value for one of these, and perhaps others. -/
def prodAnd (others : List Entry) : List Entry := (⟨.unknown, "target"⟩, .ofText "prod") :: others

theorem bindParameters_countAndTarget :
    (bindParameters .none noFiles (some countAndTarget)
        (some (.mapping .unknown (prodAnd [])))).run.run {}
      = some (.ok (.ofPairs [("count", .ofInt 0), ("target", .ofText "prod")]), {}) ∧
    ¬ ∃ r j, (bindParameters .none noFiles (some countAndTarget)
        (some (.mapping .unknown (prodAnd [(⟨.unknown, "taget"⟩, .ofText "dev")])))).run.run {}
      = some (.ok r, j) := by
  have hallowed : Expression.looselyEqual (.ofText "prod") (.ofText "prod") = true := by
    decide +kernel
  have hbinds (provided : List Entry) (hcount : provided? provided "count" = none)
      (htarget : provided? provided "target" = some (.ofText "prod")) :
      Binds .none noFiles provided (some countAndTarget) {}
        [("count", .ofInt 0), ("target", .ofText "prod")] {} := by
    refine .sequence (.cons (.default rfl rfl hcount rfl) (.cons (.given rfl rfl htarget rfl ?_) .nil))
    simp [Parameter.check, hallowed]
  constructor
  · exact (bindParameters_of_binds (by decide) (hbinds _ rfl rfl)).1.trans rfl
  · intro hok
    have hnames := ((bindParameters_of_binds (by decide) (hbinds _ rfl rfl)).2 (by decide)).mp hok
    exact absurd hnames (by decide)

/-- A sequence that declares `a` twice. -/
def repeatedName : Token :=
  .ofItems [.ofPairs [("name", .ofText "a")], .ofPairs [("name", .ofText "a")]]

/-- Values for `a` and for `b`. -/
def aAndB : List Entry := [(⟨.unknown, "a"⟩, .ofInt 1), (⟨.unknown, "b"⟩, .ofInt 2)]

/-- The value for `b` counts as one for the second `a`. -/
theorem repeatedName_bindsUndeclared :
    ¬ ∀ (refs : References) (c : Context) (declared : Option Token) (provided : List Entry)
        (o : Template.Origin) (bound : List (String × Token)) (j j' : Journal),
      (provided.map (·.1.name)).Nodup → Binds refs c provided declared j bound j' →
        ((∃ r j₁, (bindParameters refs c declared (some (.mapping o provided))).run.run j
            = some (.ok r, j₁)) ↔ ∀ e ∈ provided, e.1.name ∈ bound.map (·.1)) := by
  have hbinds : Binds .none noFiles aAndB (some repeatedName) {}
      [("a", .ofInt 1), ("a", .ofInt 1)] {} :=
    .sequence (.cons (.given rfl rfl rfl rfl rfl) (.cons (.given rfl rfl rfl rfl rfl) .nil))
  intro hdeclared
  have hnames := (hdeclared _ _ _ _ .unknown _ _ _ (by decide) hbinds).mp ⟨_, _, rfl⟩
  exact absurd hnames (by decide)

end PipelineExpansion.Pipeline
