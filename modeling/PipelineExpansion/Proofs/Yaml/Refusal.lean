import PipelineExpansion.Proofs.Yaml.Tree

/-!
# What readers refuse

`Refuses r w P`: off the events `w`, as they may come back from a text, `r` fails with a diagnostic that
has the property `P`, whatever follows them. A reader refuses what one of its steps refuses behind what
the steps before have taken; a loop refuses an entry behind those that it has taken
(`refuses_untilEnd`), and so does the reader of a mapping or of a sequence.

## Main results

* `refuses_mappingOf`, `refuses_sequenceOf`: one entry or one item that is refused is enough.
-/

namespace PipelineExpansion.Yaml

variable {α β σ : Type} {P : Diagnostic → Prop}

/-- Off some events, whatever follows them, a reader fails with a diagnostic that has a property.
-/
def Refuses (r : Reader α) (w : List Event) (P : Diagnostic → Prop) : Prop :=
  ∀ (es rest : List Spanned) (last : Option Span), Written w es →
    ∃ d c, r.run.run ⟨es ++ rest, last⟩ = (.error d, c) ∧ P d

/-! ### Steps -/

/-- What follows does not matter. -/
theorem Refuses.append {r : Reader α} {w : List Event} (h : Refuses r w P) (w' : List Event) :
    Refuses r (w ++ w') P := by
  intro es rest last hes
  obtain ⟨es₁, es₂, hes₁, -, rfl⟩ := hes.split
  rw [List.append_assoc]
  exact h es₁ (es₂ ++ rest) last hes₁

theorem Refuses.imp {r : Reader α} {w : List Event} {Q : Diagnostic → Prop} (h : Refuses r w P)
    (hPQ : ∀ d, P d → Q d) : Refuses r w Q := by
  intro es rest last hes
  obtain ⟨d, c, hrun, hd⟩ := h es rest last hes
  exact ⟨d, c, hrun, hPQ d hd⟩

/-- Steps behind a failure do not matter. -/
theorem Refuses.bind {r : Reader α} {w : List Event} (h : Refuses r w P) (f : α → Reader β) :
    Refuses (r >>= f) w P := by
  intro es rest last hes
  obtain ⟨d, c, hrun, hd⟩ := h es rest last hes
  rw [run_bind, hrun]
  exact ⟨d, c, rfl, hd⟩

theorem Takes.bind_refuses {r : Reader α} {w w' : List Event} {a : α} {f : α → Reader β}
    (h : Takes r w a) (h' : Refuses (f a) w' P) : Refuses (r >>= f) (w ++ w') P := by
  intro es rest last hes
  obtain ⟨es₁, es₂, hes₁, hes₂, rfl⟩ := hes.split
  rw [run_bind, List.append_assoc, h es₁ (es₂ ++ rest) last hes₁]
  exact h' es₂ rest last hes₂

theorem refuses_expect_bind {e : Event} (he : e.isScalar = false) {f : Span → Reader β}
    {w : List Event} (h : ∀ span, Refuses (f span) w P) :
    Refuses (Reader.expect e >>= f) (e :: w) P := by
  intro es rest last hes
  obtain ⟨⟨e', span⟩, es', hkept, hes', rfl⟩ := hes.cons
  obtain rfl : e' = e := hkept.eq he
  rw [run_bind, List.cons_append, run_expect]
  exact h span es' rest last hes'

theorem refuses_scalar_bind {s : String} {f : Scalar → Reader β} {w : List Event}
    (h : ∀ key : Scalar, key.text = s → key.isNull = false → Refuses (f key) w P) :
    Refuses (Reader.scalar >>= f) (.scalar s false :: w) P := by
  intro es rest last hes
  obtain ⟨⟨_, span⟩, es', ⟨plain, rfl, hnull⟩, hes', rfl⟩ := hes.cons
  rw [run_bind, List.cons_append, run_scalar]
  exact h ⟨s, plain, span⟩ rfl (hnull span) es' rest last hes'

theorem Peeks.refuses_bind {r : Reader α} {p : α} {e : Event} {w : List Event} {f : α → Reader β}
    (hr : Peeks r e p) (h : Refuses (f p) (e :: w) P) : Refuses (r >>= f) (e :: w) P := by
  intro es rest last hes
  obtain ⟨s, es', hkept, -, rfl⟩ := hes.cons
  rw [run_bind, List.cons_append, hr s _ last hkept]
  exact h (s :: es') rest last hes

theorem refuses_throw {d : Diagnostic} (h : P d) : Refuses (throw d : Reader α) [] P :=
  fun _ _ _ _ => ⟨d, _, rfl, h⟩

theorem refuses_failAt (span : Option Span) (message : String) :
    Refuses (Reader.failAt span message : Reader α) [] (·.message = message) :=
  refuses_throw rfl

/-- A reader of texts that say something refuses the empty text. -/
theorem refuses_nonEmpty :
    Refuses Reader.nonEmpty [.scalar "" false] (·.message = "Expected non-empty string value.") := by
  refine refuses_scalar_bind fun key htext _ => ?_
  rw [if_pos (by simp [htext])]
  exact (refuses_failAt _ _).bind _

/-- A reader that goes by the name of an entry. -/
theorem refuses_key {key : String} {w : List Event} {body : Scalar → Reader σ} {r : Reader σ}
    (h : Refuses r w P) (hbody : ∀ name : Scalar, name.text = key → body name = r) :
    Refuses (Reader.scalar >>= body) (.scalar key false :: w) P :=
  refuses_scalar_bind fun name hname _ => hbody name hname ▸ h

/-! ### Loops -/

/-- Where the end of a collection does not come, it is not taken. -/
theorem refuses_allow_bind {e closing : Event} (hclosing : closing.isScalar = false)
    (he : e ≠ closing) {f : Bool → Reader β} {w : List Event}
    (h : Refuses (f false) (e :: w) P) :
    Refuses (Reader.allow closing >>= f) (e :: w) P := by
  rw [Reader.allow, bind_assoc]
  refine (peeks_comes hclosing e).refuses_bind ?_
  rw [decide_eq_false he]
  exact h

/-- A loop refuses what its step refuses behind the entries that it has taken. -/
theorem refuses_upTo {closing : Event} (hclosing : closing.isScalar = false)
    {step : σ → Reader σ} {a b : σ} {w w' : List Event} {e : Event} (h : Loops closing step a w b)
    (he : e ≠ closing) (hrefuses : Refuses (step b) (e :: w') P) {n : Nat}
    (hn : w.length < n) : Refuses (Reader.upTo closing step n a) (w ++ e :: w') P := by
  induction h generalizing n with
  | nil a =>
      obtain ⟨n, rfl⟩ : ∃ n', n = n' + 1 := ⟨n - 1, by omega⟩
      exact refuses_allow_bind hclosing he (hrefuses.bind _)
  | cons hfirst hstep _ ih =>
      rw [List.length_cons, List.length_append] at hn
      obtain ⟨n, rfl⟩ : ∃ n', n = n' + 1 := ⟨n - 1, by omega⟩
      rw [List.cons_append, List.append_assoc]
      exact refuses_allow_bind hclosing hfirst (hstep.bind_refuses (ih hrefuses (by omega)))

theorem refuses_untilEnd {closing : Event} (hclosing : closing.isScalar = false)
    {step : σ → Reader σ} {a b : σ} {w w' : List Event} {e : Event} (h : Loops closing step a w b)
    (he : e ≠ closing) (hrefuses : Refuses (step b) (e :: w') P) :
    Refuses (Reader.untilEnd closing a step) (w ++ e :: w') P := by
  intro es rest last hes
  have hlength : w.length < (es ++ rest).length + 1 := by
    have := hes.length_eq
    rw [List.length_append] at this ⊢
    omega
  exact refuses_upTo hclosing h he hrefuses hlength es rest last hes

/-! ### Collections -/

/-- Where not all members of a list have a property, there is a first one that does not have it. -/
theorem exists_first {α : Type} {p : α → Prop} [DecidablePred p] {l : List α}
    (h : ¬ ∀ a ∈ l, p a) :
    ∃ before a after, l = before ++ a :: after ∧ (∀ b ∈ before, p b) ∧ ¬ p a := by
  obtain ⟨a, ha⟩ : ∃ a, l.find? (fun a => ¬ p a) = some a := by
    rw [← Option.isSome_iff_exists, List.find?_isSome]
    simpa using h
  obtain ⟨hnot, before, after, rfl, hbefore⟩ := List.find?_eq_some_iff_append.mp ha
  exact ⟨before, a, after, rfl, by simpa using hbefore, by simpa using hnot⟩

/-- **The reader of a mapping refuses an entry behind those that it has taken.** -/
theorem refuses_mappingOf {step : σ → Reader σ} {a b : σ} {es es' : List (String × Tree)}
    {key : String} {t : Tree} (hkeys : (Tree.keys (es ++ (key, t) :: es')).Nodup)
    (h : Entries step a es b) (hrefuses : Refuses (step b) (.scalar key false :: t.events) P) :
    Refuses (Reader.mappingOf a step) (Tree.ofEntries (es ++ (key, t) :: es')).events P := by
  have hkey : Event.scalar key false ≠ .mappingEnd := by simp
  rw [Tree.ofEntries_of_nodup hkeys]
  refine refuses_expect_bind rfl fun _ => ?_
  rw [Tree.entryEvents_append, Tree.entryEvents, List.append_assoc, List.cons_append]
  refine refuses_untilEnd rfl h hkey ?_
  rw [List.append_assoc, ← List.cons_append]
  exact hrefuses.append _

/-- **The reader of a sequence refuses an item behind those that it has taken.** -/
theorem refuses_sequenceOf {item : Reader α} {write : β → Tree} {f : β → α}
    {before after : List β} {x : β} (h : ∀ y ∈ before, Takes item (write y).events (f y))
    (hrefuses : Refuses item (write x).events P) :
    Refuses (Reader.sequenceOf item) (Tree.sequence ((before ++ x :: after).map write)).events
      P := by
  obtain ⟨e, w, hevents, hend, -⟩ := (write x).events_eq_cons
  refine refuses_expect_bind rfl fun _ => ?_
  rw [List.map_append, List.map_cons, Tree.itemEvents_append, Tree.itemEvents, List.append_assoc,
    List.append_assoc, hevents, List.cons_append]
  refine (refuses_untilEnd rfl (loops_items h []) hend ?_).bind _
  rw [← List.cons_append, ← hevents]
  exact (hrefuses.bind _).append _

end PipelineExpansion.Yaml
