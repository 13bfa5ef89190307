import Mathlib.Data.List.Forall2
import PipelineExpansion.Proofs.Outcome
import PipelineExpansion.Proofs.Yaml.Int32
import PipelineExpansion.Yaml.Cursor
import PipelineExpansion.Yaml.Tree

/-!
# Readers and what they read

Two things are said of readers. `Yields r P`: what `r` returns, whatever it is given, has the
property `P`. `Takes r w a`: off the events `w`, as they may come back from a text, `r` takes
exactly these and returns `a`. Written texts come back as the same texts; whether they stand in
quotes is left open, as long as none of them becomes null (`KeptAs`).

Both are proved along the structure of a reader: by `bind`, and for loops over the entries of a
collection by an invariant (`Yields.untilEnd`) or entry by entry (`Loops`, `Entries`).

## Main results

* `takes_untilEnd`: a loop takes the entries of a collection and its end.
* `takes_mappingOf`, `takes_sequenceOf`: mappings and sequences are taken off the events of a
  tree.
-/

namespace PipelineExpansion.Yaml

variable {α β σ : Type}

/-! ### What readers return -/

/-- What a reader returns has a property. -/
def Yields (r : Reader α) (P : α → Prop) : Prop := ∀ c a c', r.run.run c = (.ok a, c') → P a

/-- What begins with one step returns alike when what follows does. -/
theorem run_bind_congr {γ : Type} {r : Reader γ} {f : γ → Reader α} {g : γ → Reader β}
    {c c' : Cursor} {a : α} {b : β}
    (h : ∀ x c₁, (f x).run.run c₁ = (.ok a, c') ↔ (g x).run.run c₁ = (.ok b, c')) :
    (r >>= f).run.run c = (.ok a, c') ↔ (r >>= g).run.run c = (.ok b, c') := by
  rw [run_bind_eq_ok, run_bind_eq_ok]
  exact exists_congr fun x => exists_congr fun c₁ => and_congr_right fun _ => h x c₁

/-- A step that wraps what another returns. -/
theorem run_map_eq_ok {r : Reader α} {f : α → β} (hf : Function.Injective f) {c c' : Cursor}
    {a : α} : (r >>= fun a => pure (f a)).run.run c = (.ok (f a), c') ↔
      r.run.run c = (.ok a, c') := by
  rw [run_bind_eq_ok]
  constructor
  · rintro ⟨b, c₁, hr, hpure⟩
    obtain ⟨hvalue, rfl⟩ := Prod.mk.inj hpure
    rw [hr, hf (Except.ok.inj hvalue)]
  · intro hr
    exact ⟨a, c', hr, rfl⟩

theorem yields_true (r : Reader α) : Yields r fun _ => True := fun _ _ _ _ => trivial

theorem yields_pure {a : α} {P : α → Prop} (h : P a) : Yields (pure a) P := by
  intro c b c' hrun
  cases hrun
  exact h

theorem Yields.bind {r : Reader α} {P : α → Prop} {f : α → Reader β} {Q : β → Prop}
    (h : Yields r P)
    (h' : ∀ a, P a → Yields (f a) Q) : Yields (r >>= f) Q := by
  intro c b c' hrun
  obtain ⟨a, c₁, hr, hf⟩ := run_bind_eq_ok.mp hrun
  exact h' a (h c a c₁ hr) c₁ b c' hf

theorem Yields.imp {r : Reader α} {P Q : α → Prop} (h : Yields r P) (hPQ : ∀ a, P a → Q a) :
    Yields r Q :=
  fun c a c' hrun => hPQ a (h c a c' hrun)

/-- Steps before the last do not matter when the last one always has the property. -/
theorem yields_bind_of_forall {r : Reader α} {f : α → Reader β} {Q : β → Prop}
    (h : ∀ a, Yields (f a) Q) : Yields (r >>= f) Q :=
  (yields_true r).bind fun a _ => h a

theorem yields_failAt (span : Option Span) (message : String) (P : α → Prop) :
    Yields (Reader.failAt span message) P := by
  intro c a c' hrun
  cases hrun

/-- A loop keeps an invariant of its steps. -/
theorem yields_upTo {closing : Event} {step : σ → Reader σ} {P : σ → Prop}
    (hstep : ∀ acc, P acc → Yields (step acc) P) (n : Nat) {acc : σ} (hacc : P acc) :
    Yields (Reader.upTo closing step n acc) P := by
  induction n generalizing acc with
  | zero => exact yields_bind_of_forall fun _ => yields_failAt _ _ _
  | succ n ih =>
      rw [Reader.upTo]
      refine yields_bind_of_forall fun closed => ?_
      split
      · exact yields_pure hacc
      · exact (hstep acc hacc).bind fun acc' hacc' => ih hacc'

theorem yields_untilEnd {closing : Event} {step : σ → Reader σ} {P : σ → Prop} {acc : σ}
    (hacc : P acc)
    (hstep : ∀ acc, P acc → Yields (step acc) P) : Yields (Reader.untilEnd closing acc step) P :=
  yields_bind_of_forall fun _ => yields_upTo hstep _ hacc

theorem yields_mappingOf {entry : σ → Reader σ} {P : σ → Prop} {acc : σ} (hacc : P acc)
    (hentry : ∀ acc, P acc → Yields (entry acc) P) : Yields (Reader.mappingOf acc entry) P :=
  yields_bind_of_forall fun _ => yields_untilEnd hacc hentry

/-- The items of a sequence have what the reader of items gives them. -/
theorem yields_restOfSequence {item : Reader α} {P : α → Prop} (h : Yields item P) :
    Yields (Reader.restOfSequence item) fun items => ∀ a ∈ items, P a := by
  refine Yields.bind (P := fun items => ∀ a ∈ items, P a) ?_ fun items hitems => yields_pure ?_
  · refine yields_untilEnd nofun fun items hitems => h.bind fun a ha => yields_pure ?_
    exact List.forall_mem_cons.mpr ⟨ha, hitems⟩
  · exact fun a ha => hitems a (List.mem_reverse.mp ha)

theorem yields_sequenceOf {item : Reader α} {P : α → Prop} (h : Yields item P) :
    Yields (Reader.sequenceOf item) fun items => ∀ a ∈ items, P a :=
  yields_bind_of_forall fun _ => yields_restOfSequence h

theorem yields_failAt_bind (span : Option Span) (message : String) (f : α → Reader β)
    (Q : β → Prop) :
    Yields (Reader.failAt span message >>= f) Q :=
  (yields_failAt span message fun _ => False).bind fun _ h => h.elim

theorem yields_nonEmpty : Yields Reader.nonEmpty (· ≠ "") := by
  refine yields_bind_of_forall fun s => ?_
  split
  · exact yields_failAt_bind _ _ _ _
  · next h => exact yields_pure fun h' => h (by simp [h'])

theorem yields_texts : Yields Reader.texts fun texts => ∀ s ∈ texts, s ≠ "" := by
  refine yields_bind_of_forall fun single => ?_
  split
  · refine yields_nonEmpty.bind fun s hs => yields_pure ?_
    exact List.forall_mem_singleton.mpr hs
  · exact yields_sequenceOf yields_nonEmpty

/-! ### What readers take -/

/-- Whether a written event may come back as another: texts as the same texts, in quotes or not,
but not as null. -/
def Event.KeptAs : Event → Event → Prop
  | .scalar s false, e =>
    ∃ plain, e = .scalar s plain ∧ ∀ span, Scalar.isNull ⟨s, plain, span⟩ = false
  | written, e => e = written

/-- Whether written events may come back as some others. -/
def Written (w : List Event) (es : List Spanned) : Prop :=
  List.Forall₂ (fun e s => e.KeptAs s.event) w es

/-- Where a text stands does not matter for what it may come back as. -/
instance (e e' : Event) : Decidable (e.KeptAs e') :=
  match e, e' with
  | .scalar s false, .scalar s' plain =>
    decidable_of_iff (s' = s ∧ Scalar.isNull ⟨s, plain, default⟩ = false)
      ⟨fun ⟨hs, hnull⟩ => ⟨plain, hs ▸ rfl, fun _ => hnull⟩,
        fun ⟨_, hs, hnull⟩ => ⟨(Event.scalar.inj hs).1, (Event.scalar.inj hs).2 ▸ hnull default⟩⟩
  | .scalar _ false, .mappingStart | .scalar _ false, .mappingEnd
  | .scalar _ false, .sequenceStart | .scalar _ false, .sequenceEnd => .isFalse nofun
  | .scalar s true, e' => decidable_of_iff (e' = .scalar s true) .rfl
  | .mappingStart, e' => decidable_of_iff (e' = .mappingStart) .rfl
  | .mappingEnd, e' => decidable_of_iff (e' = .mappingEnd) .rfl
  | .sequenceStart, e' => decidable_of_iff (e' = .sequenceStart) .rfl
  | .sequenceEnd, e' => decidable_of_iff (e' = .sequenceEnd) .rfl

instance (w : List Event) (es : List Spanned) : Decidable (Written w es) :=
  inferInstanceAs (Decidable (List.Forall₂ (fun e (s : Spanned) => e.KeptAs s.event) w es))

/-- What was written piece by piece comes back piece by piece. -/
theorem Written.split {w w' : List Event} {es : List Spanned} (h : Written (w ++ w') es) :
    ∃ es₁ es₂, Written w es₁ ∧ Written w' es₂ ∧ es = es₁ ++ es₂ :=
  ⟨es.take w.length, es.drop w.length, (List.forall₂_take_append _ _ _ h.flip).flip,
    (List.forall₂_drop_append _ _ _ h.flip).flip, (List.take_append_drop _ _).symm⟩

theorem Written.cons {e : Event} {w : List Event} {es : List Spanned} (h : Written (e :: w) es) :
    ∃ s es', e.KeptAs s.event ∧ Written w es' ∧ es = s :: es' :=
  List.forall₂_cons_left_iff.mp h

/-- Off some events, whatever follows them, a reader takes exactly these and returns a value. -/
def Takes (r : Reader α) (w : List Event) (a : α) : Prop :=
  ∀ (es rest : List Spanned) (last : Option Span), Written w es →
    r.run.run ⟨es ++ rest, last⟩ = (.ok a, ⟨rest, last⟩)

theorem takes_pure (a : α) : Takes (pure a) [] a := by
  intro es rest last hes
  cases hes
  rfl

theorem Takes.bind {r : Reader α} {w w' : List Event} {a : α} {f : α → Reader β} {b : β}
    (h : Takes r w a) (h' : Takes (f a) w' b) : Takes (r >>= f) (w ++ w') b := by
  intro es rest last hes
  obtain ⟨es₁, es₂, hes₁, hes₂, rfl⟩ := hes.split
  rw [run_bind, List.append_assoc, h es₁ (es₂ ++ rest) last hes₁]
  exact h' es₂ rest last hes₂

/-- A last step that reads nothing. -/
theorem Takes.bind_nil {r : Reader α} {w : List Event} {a : α} {f : α → Reader β} {b : β}
    (h : Takes r w a) (h' : Takes (f a) [] b) : Takes (r >>= f) w b := by
  have hbind := h.bind h'
  rwa [List.append_nil] at hbind

theorem Takes.map {r : Reader α} {w : List Event} {a : α} (f : α → β) (h : Takes r w a) :
    Takes (r >>= fun a => pure (f a)) w (f a) :=
  h.bind_nil (takes_pure (f a))

/-- Whether an event is a text. -/
def Event.isScalar : Event → Bool
  | .scalar .. => true
  | _ => false

/-- Events that are no texts come back as they are. -/
theorem Event.KeptAs.eq {e e' : Event} (h : e.KeptAs e') (he : e.isScalar = false) : e' = e := by
  unfold KeptAs at h
  split at h
  · cases he
  · exact h

/-- Nothing else comes back as an event that is no text. -/
theorem Event.KeptAs.eq_of_isScalar {e e' : Event} (h : e.KeptAs e') (he' : e'.isScalar = false) :
    e = e' := by
  unfold KeptAs at h
  split at h
  · obtain ⟨plain, rfl, -⟩ := h
    cases he'
  · exact h.symm

theorem run_expect (e : Event) (span : Span) (rest : List Spanned) (last : Option Span) :
    (Reader.expect e).run.run ⟨⟨e, span⟩ :: rest, last⟩ = (.ok span, ⟨rest, last⟩) := by
  have htake : (Reader.take e.describe).run.run ⟨⟨e, span⟩ :: rest, last⟩
      = (.ok ⟨e, span⟩, ⟨rest, last⟩) := rfl
  rw [Reader.expect, run_bind, htake]
  simp only [if_true]
  rfl

theorem takes_expect_bind {e : Event} (he : e.isScalar = false) {f : Span → Reader β}
    {w : List Event} {b : β}
    (h : ∀ span, Takes (f span) w b) : Takes (Reader.expect e >>= f) (e :: w) b := by
  intro es rest last hes
  obtain ⟨⟨e', span⟩, es', hkept, hes', rfl⟩ := hes.cons
  obtain rfl : e' = e := hkept.eq he
  rw [run_bind, List.cons_append, run_expect]
  exact h span es' rest last hes'

theorem run_scalar (s : String) (plain : Bool) (span : Span) (rest : List Spanned)
    (last : Option Span) :
    Reader.scalar.run.run ⟨⟨.scalar s plain, span⟩ :: rest, last⟩
      = (.ok ⟨s, plain, span⟩, ⟨rest, last⟩) :=
  rfl

theorem takes_scalar_bind {s : String} {f : Scalar → Reader β} {w : List Event} {b : β}
    (h : ∀ key : Scalar, key.text = s → key.isNull = false → Takes (f key) w b) :
    Takes (Reader.scalar >>= f) (.scalar s false :: w) b := by
  intro es rest last hes
  obtain ⟨⟨_, span⟩, es', ⟨plain, rfl, hnull⟩, hes', rfl⟩ := hes.cons
  rw [run_bind, List.cons_append, run_scalar]
  exact h ⟨s, plain, span⟩ rfl (hnull span) es' rest last hes'

/-- A value that is made of a text. -/
theorem takes_scalar_map (f : String → β) (s : String) :
    Takes (Reader.scalar >>= fun key => pure (f key.text)) [.scalar s false] (f s) :=
  takes_scalar_bind fun _ hkey _ => hkey ▸ takes_pure _

theorem takes_boolean (b : Bool) :
    Takes Reader.boolean [.scalar (if b then "true" else "false") false] b := by
  refine takes_scalar_bind fun key hkey _ => ?_
  rw [hkey]
  cases b <;> exact takes_pure _

theorem takes_nonEmpty {s : String} (hs : s ≠ "") :
    Takes Reader.nonEmpty [.scalar s false] s := by
  refine takes_scalar_bind fun key htext hnull => ?_
  rw [if_neg (by simp [htext, hnull, hs]), htext]
  exact takes_pure s

/-- A reader looks at the next event and leaves it for what follows: whatever the event comes back
as, it returns a value. -/
def Peeks (r : Reader α) (e : Event) (p : α) : Prop :=
  ∀ s rest last, e.KeptAs s.event → r.run.run ⟨s :: rest, last⟩ = (.ok p, ⟨s :: rest, last⟩)

theorem Peeks.takes_bind {r : Reader α} {p : α} {e : Event} {w : List Event} {f : α → Reader β}
    {b : β} (hr : Peeks r e p) (h : Takes (f p) (e :: w) b) : Takes (r >>= f) (e :: w) b := by
  intro es rest last hes
  obtain ⟨s, es', hkept, -, rfl⟩ := hes.cons
  rw [run_bind, List.cons_append, hr s _ last hkept]
  exact h (s :: es') rest last hes

theorem peeks_scalarComes (e : Event) : Peeks Reader.scalarComes e e.isScalar := by
  intro s rest last hkept
  obtain ⟨e', span⟩ := s
  cases he : e.isScalar with
  | false =>
      obtain rfl : e' = e := hkept.eq he
      cases e' <;> first | rfl | cases he
  | true =>
      cases e' with
      | scalar => rfl
      | _ => rw [hkept.eq_of_isScalar rfl] at he; cases he

theorem takes_scalarComes_bind {e : Event} {w : List Event} {f : Bool → Reader β} {b : β}
    (h : Takes (f e.isScalar) (e :: w) b) : Takes (Reader.scalarComes >>= f) (e :: w) b :=
  (peeks_scalarComes e).takes_bind h

/-- What comes back as an event that is no text was written as that event. -/
theorem Event.KeptAs.decide_eq {e e' closing : Event} (h : e.KeptAs e')
    (hclosing : closing.isScalar = false) :
    decide (e' = closing) = decide (e = closing) := by
  rw [decide_eq_decide]
  constructor
  · rintro rfl
    exact h.eq_of_isScalar hclosing
  · rintro rfl
    exact h.eq hclosing

theorem run_comes (closing : Event) (s : Spanned) (rest : List Spanned) (last : Option Span) :
    (Reader.comes closing).run.run ⟨s :: rest, last⟩
      = (.ok (decide (s.event = closing)), ⟨s :: rest, last⟩) :=
  rfl

theorem peeks_comes {closing : Event} (hclosing : closing.isScalar = false) (e : Event) :
    Peeks (Reader.comes closing) e (e = closing) := by
  intro s rest last hkept
  rw [run_comes, hkept.decide_eq hclosing]

theorem takes_comes_bind {e closing : Event} (hclosing : closing.isScalar = false)
    {w : List Event}
    {f : Bool → Reader β} {b : β} (h : Takes (f (e = closing)) (e :: w) b) :
    Takes (Reader.comes closing >>= f) (e :: w) b :=
  (peeks_comes hclosing e).takes_bind h

/-- The places that faults are reported with are not returned. -/
theorem takes_currentSpan_bind {w : List Event} {f : Option Span → Reader β} {b : β}
    (h : ∀ span, Takes (f span) w b) : Takes (Reader.currentSpan >>= f) w b :=
  fun es rest last hes => h _ es rest last hes

/-! ### Loops -/

theorem takes_allow_bind_closing {closing : Event} (hclosing : closing.isScalar = false)
    {f : Bool → Reader β} {w : List Event} {b : β} (h : Takes (f true) w b) :
    Takes (Reader.allow closing >>= f) (closing :: w) b := by
  intro es rest last hes
  obtain ⟨⟨e', span⟩, es', hkept, hes', rfl⟩ := hes.cons
  obtain rfl : e' = closing := hkept.eq hclosing
  rw [Reader.allow, bind_assoc, List.cons_append, run_bind, run_comes, decide_eq_true rfl]
  exact h es' rest last hes'

theorem takes_allow_bind {e closing : Event} (hclosing : closing.isScalar = false)
    (he : e ≠ closing)
    {f : Bool → Reader β} {w : List Event} {b : β} (h : Takes (f false) (e :: w) b) :
    Takes (Reader.allow closing >>= f) (e :: w) b := by
  rw [Reader.allow, bind_assoc]
  refine takes_comes_bind hclosing ?_
  rw [decide_eq_false he]
  exact h

/-- Events on which the steps of a loop lead from one state to another; none of them begins with
the end of the collection. -/
inductive Loops (closing : Event) (step : σ → Reader σ) : σ → List Event → σ → Prop
  | nil (a : σ) : Loops closing step a [] a
  | cons {a b c : σ} {e : Event} {w w' : List Event} (he : e ≠ closing)
    (h : Takes (step a) (e :: w) b)
    (h' : Loops closing step b w' c) : Loops closing step a (e :: (w ++ w')) c

theorem Loops.append {closing : Event} {step : σ → Reader σ} {a b c : σ} {w w' : List Event}
    (h : Loops closing step a w b) (h' : Loops closing step b w' c) :
      Loops closing step a (w ++ w') c := by
  induction h with
  | nil => exact h'
  | cons he hstep _ ih =>
      rw [List.cons_append, List.append_assoc]
      exact .cons he hstep (ih h')

/-- Every turn takes an event, so that there are enough of them. -/
theorem takes_upTo {closing : Event} (hclosing : closing.isScalar = false) {step : σ → Reader σ}
    {a b : σ}
    {w : List Event} (h : Loops closing step a w b) {n : Nat} (hn : w.length < n) :
    Takes (Reader.upTo closing step n a) (w ++ [closing]) b := by
  induction h generalizing n with
  | nil a =>
      obtain ⟨n, rfl⟩ : ∃ n', n = n' + 1 := ⟨n - 1, by omega⟩
      exact takes_allow_bind_closing hclosing (takes_pure a)
  | cons he hstep _ ih =>
      rw [List.length_cons, List.length_append] at hn
      obtain ⟨n, rfl⟩ : ∃ n', n = n' + 1 := ⟨n - 1, by omega⟩
      rw [List.cons_append, List.append_assoc]
      exact takes_allow_bind hclosing he (hstep.bind (ih (by omega)))

theorem takes_untilEnd {closing : Event} (hclosing : closing.isScalar = false)
    {step : σ → Reader σ} {a b : σ}
    {w : List Event} (h : Loops closing step a w b) :
    Takes (Reader.untilEnd closing a step) (w ++ [closing]) b := by
  intro es rest last hes
  have hlength : w.length < (es ++ rest).length + 1 := by
    have := hes.length_eq
    rw [List.length_append] at this ⊢
    rw [List.length_singleton] at this
    omega
  exact takes_upTo hclosing h hlength es rest last hes

/-! ### Whole numbers -/

theorem takes_int32 {n : Int} (h : 0 ≤ n) (h' : n ≤ 2147483647) :
    Takes Reader.int32 [.scalar (toString n) false] n := by
  obtain ⟨m, rfl⟩ := Int.eq_ofNat_of_zero_le h
  have hm : int32? (toString (m : Int)) = some (m : Int) := int32?_toString (by omega)
  refine takes_scalar_bind fun key hkey _ => ?_
  simp only [hkey, hm]
  exact takes_pure _

theorem yields_int32 : Yields Reader.int32 (· ≤ 2147483647) := by
  refine yields_bind_of_forall fun s => ?_
  split
  · next n h => exact yields_pure (int32?_eq_some_iff.mp h).2.2
  · exact yields_failAt _ _ _

end PipelineExpansion.Yaml
