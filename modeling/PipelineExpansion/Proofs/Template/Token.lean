import PipelineExpansion.Proofs.Number.Binary64
import PipelineExpansion.Proofs.Outcome
import PipelineExpansion.Template.Token

/-!
# Tokens and places

A token that is made from a value has no place of its own. `locatedAt` gives it one, and changes
nothing else: what is expected of a token is found whatever its place is. Once a token has a place,
it keeps it (`locatedAt_locatedAt`).
-/

namespace PipelineExpansion.Template.Token

variable {t : Token} {entries : List Entry} {items : List Token}

/-- What holds of scalars, and of a collection with what is in it, holds of all tokens. -/
@[elab_as_elim]
theorem induct {P : Token → Prop} (scalar : ∀ t : Token, t.isScalar = true → P t)
    (sequence : ∀ o items, (∀ t ∈ items, P t) → P (.sequence o items))
    (mapping : ∀ o (entries : List Entry), (∀ e ∈ entries, P e.2) → P (.mapping o entries))
    (t : Token) : P t := by
  match t with
  | .null _ | .boolean .. | .number .. | .text .. => exact scalar _ rfl
  | .sequence o items => exact sequence o items fun t ht => induct scalar sequence mapping t
  | .mapping o entries => exact mapping o entries fun e he => induct scalar sequence mapping e.2
termination_by sizeOf t
decreasing_by
  · have := List.sizeOf_lt_of_mem ht
    simp only [Token.sequence.sizeOf_spec]
    omega
  · have := List.sizeOf_lt_of_mem he
    obtain ⟨k, v⟩ := e
    simp only [Token.mapping.sizeOf_spec, Prod.mk.sizeOf_spec] at this ⊢
    omega

/-! ### Places -/

theorem withOrigin_origin (t : Token) : t.withOrigin t.origin = t := by
  cases t <;> rfl

@[simp] theorem origin_withOrigin (t : Token) (o : Origin) : (t.withOrigin o).origin = o := by
  cases t <;> rfl

theorem locatedAt_self (t : Token) : t.locatedAt t = t := by
  unfold locatedAt
  split
  · exact withOrigin_origin t
  · rfl

/-- A token takes the place of another only once. -/
theorem locatedAt_locatedAt (t other : Token) :
    t.locatedAt (t.locatedAt other) = t.locatedAt other := by
  cases hplace : t.span.isNone with
  | true => simp [locatedAt, hplace]
  | false => simp [locatedAt, hplace]

@[simp] theorem entries?_withOrigin (t : Token) (o : Origin) :
    (t.withOrigin o).entries? = t.entries? := by
  cases t <;> rfl

@[simp] theorem items?_withOrigin (t : Token) (o : Origin) :
    (t.withOrigin o).items? = t.items? := by
  cases t <;> rfl

@[simp] theorem isNull_withOrigin (t : Token) (o : Origin) :
    (t.withOrigin o).isNull = t.isNull := by
  cases t <;> rfl

@[simp] theorem kindName_withOrigin (t : Token) (o : Origin) :
    (t.withOrigin o).kindName = t.kindName := by
  cases t <;> rfl

@[simp] theorem entries?_locatedAt (t other : Token) :
    (t.locatedAt other).entries? = t.entries? := by
  unfold locatedAt
  split <;> simp

@[simp] theorem items?_locatedAt (t other : Token) :
    (t.locatedAt other).items? = t.items? := by
  unfold locatedAt
  split <;> simp

@[simp] theorem isNull_locatedAt (t other : Token) :
    (t.locatedAt other).isNull = t.isNull := by
  unfold locatedAt
  split <;> simp

@[simp] theorem kindName_locatedAt (t other : Token) :
    (t.locatedAt other).kindName = t.kindName := by
  unfold locatedAt
  split <;> simp

/-! ### Expectations -/

theorem expectMapping_eq (what : String) (h : t.entries? = some entries) :
    t.expectMapping what = .ok entries := by
  rw [expectMapping, h]

theorem expectSequence_eq (what : String) (h : t.items? = some items) :
    t.expectSequence what = .ok items := by
  rw [expectSequence, h]

theorem isNull_eq_false_of_items? (h : t.items? = some items) : t.isNull = false := by
  cases t with
  | sequence => rfl
  | _ => cases h

/-- Texts that have to be there are there. -/
theorem ensures_expectNonEmpty (t : Token) (what : String) :
    Ensures (t.expectNonEmpty what) (· ≠ "") := by
  refine ensures_bind_of_forall fun s => ?_
  split
  · exact ensures_error _ _
  · next h => exact ensures_pure (by simpa using h)

theorem expectNonEmpty_ofText {s : String} (what : String) (h : s ≠ "") :
    (ofText s).expectNonEmpty what = .ok s := by
  have hs : ¬ s.isEmpty = true := by simpa using h
  have htext : (ofText s).expectText what = .ok s := rfl
  simp only [expectNonEmpty, htext]
  exact if_neg hs

/-- Whole numbers of at most 53 binary places are kept. -/
theorem expectInt_ofInt {n : Int} (what : String) (h : n.natAbs < Nat.pow 2 53) :
    (ofInt n).expectInt what = .ok n := by
  have hwhole := Binary64.toInt?_ofInt h
  have hplaces : n.natAbs < 9007199254740992 := h
  have hsaturate : (Binary64.ofInt n).saturate wholeBounds.1 wholeBounds.2 = n :=
    Binary64.saturate_ofInt h (by simp only [wholeBounds]; omega)
      (by simp only [wholeBounds]; omega)
  rw [expectInt, ofInt]
  simp only [number?, hwhole, hsaturate, isNull, Option.isSome_some, Bool.not_false, Bool.and_self,
    if_true]

end PipelineExpansion.Template.Token
