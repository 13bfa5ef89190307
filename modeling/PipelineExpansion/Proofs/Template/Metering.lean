import PipelineExpansion.Proofs.Template.Charge
import PipelineExpansion.Template.Evaluate

/-!
# Evaluation is metered

An evaluation is put together of charges and of steps without effects. What such parts have, and what is
kept when one follows another, an evaluation has (`Composes`); this is the only induction over the
evaluator here.

What has been used up before decides whether a limit stops an evaluation, and nothing else: `Metered` says
of a step that it comes to the same result, for the same charge, wherever it starts and no limit stops it.
So its charge is a quantity of its own.

## Main results

* `Composes.evalToken`, `Composes.evalItems`, `Composes.evalEntries`: an evaluation has what its parts have.
* `Composes.metered`: being metered is such a property.
-/

namespace PipelineExpansion.Template

variable {α β σ : Type} {l : Limits} {names : Token} {depth : Nat} {u : Usage}

/-! ### What evaluations are made of -/

/-- A property of charges and of steps without effects, kept when one step follows another. -/
structure Composes (l : Limits) (P : (α : Type) → Charged α → Prop) : Prop where
  lift : ∀ {α : Type} (x : Except Diagnostic α), P α (liftM x)
  bind : ∀ {α β : Type} {x : Charged α} {f : α → Charged β}, P α x → (∀ a, P β (f a)) → P β (x >>= f)
  enter : ∀ depth, P Unit (l.enter depth)
  chargeBytes : ∀ count, P Unit (l.chargeBytes count)

namespace Composes

variable {P : (α : Type) → Charged α → Prop}

theorem pure (h : Composes l P) (a : α) : P α (Pure.pure a) := h.lift (.ok a)

theorem map (h : Composes l P) {x : Charged α} (hx : P α x) (f : α → β) :
    P β (x >>= fun a => Pure.pure (f a)) :=
  h.bind hx fun a => h.pure (f a)

theorem mapM (h : Composes l P) {f : α → Charged β} (hf : ∀ a, P β (f a)) (items : List α) :
    P (List β) (items.mapM f) := by
  induction items with
  | nil => exact h.pure []
  | cons a rest ih =>
      rw [List.mapM_cons]
      exact h.bind (hf a) fun b => h.map ih _

theorem foldlM (h : Composes l P) {step : σ → α → Charged σ} (hstep : ∀ s a, P σ (step s a))
    (items : List α) (s : σ) : P σ (items.foldlM step s) := by
  induction items generalizing s with
  | nil => exact h.pure s
  | cons a rest ih =>
      rw [List.foldlM_cons]
      exact h.bind (hstep s a) ih

theorem evalText (h : Composes l P) (names : Token) (o : Origin) (s : String) :
    P Token (Template.evalText l names o s) := by
  rw [Template.evalText]
  split
  · exact h.pure _
  · split
    · refine h.bind (h.lift _) fun value => ?_
      generalize value.locatedAt (.text o s) = located
      cases located with
      | text => exact h.bind (h.chargeBytes _) fun _ => h.pure _
      | _ => exact h.pure _
    · refine h.bind (h.lift _) fun segments => h.bind (h.lift _) fun texts => ?_
      exact h.bind (h.chargeBytes _) fun _ => h.pure _

theorem evalKey (h : Composes l P) (names : Token) (depth : Nat) (key : Key) :
    P Key (Template.evalKey l names depth key) :=
  h.bind (h.enter depth) fun _ => h.bind (h.evalText names _ _) fun _ => h.lift _

mutual

theorem evalToken (h : Composes l P) (names : Token) (depth : Nat) (t : Token) :
    P Token (Template.evalToken l names depth t) := by
  match t with
  | .text o s =>
      rw [Template.evalToken]
      exact h.bind (h.enter depth) fun _ => h.evalText names o s
  | .sequence o items =>
      rw [Template.evalToken]
      exact h.bind (h.enter depth) fun _ => h.map (h.evalItems names depth none items) _
  | .mapping o entries =>
      rw [Template.evalToken]
      exact h.bind (h.enter depth) fun _ => h.map (h.evalEntries names depth none [] entries) _
  | .null o | .boolean o b | .number o n =>
      unfold Template.evalToken
      exact h.bind (h.enter depth) fun _ => h.pure _
termination_by sizeOf t

theorem evalItems (h : Composes l P) (names : Token) (depth : Nat) (chain : Chain)
    (items : List Token) : P (List Token) (Template.evalItems l names depth chain items) := by
  match items with
  | [] =>
      rw [Template.evalItems]
      exact h.pure []
  | item :: rest =>
      rw [Template.evalItems]
      split
      · refine h.bind (h.evalToken names (depth + 1) item) fun value => ?_
        exact h.map (h.evalItems names depth none rest) _
      · refine h.bind (h.lift _) fun branch => ?_
        split
        · next next =>
          refine h.bind (h.evalBody names depth item) fun own => ?_
          exact h.map (h.evalItems names depth next rest) _
        · next next => exact h.evalItems names depth next rest
        · refine h.bind (h.lift _) fun rounds => ?_
          refine h.bind (h.mapM (fun names => h.evalBody names depth item) rounds) fun own => ?_
          exact h.map (h.evalItems names depth none rest) _
termination_by sizeOf items

theorem evalBody (h : Composes l P) (names : Token) (depth : Nat) (item : Token) :
    P (List Token) (Template.evalBody l names depth item) := by
  match item with
  | .mapping _ [(_, .sequence _ items)] =>
      unfold Template.evalBody
      exact h.evalItems names (depth + 1) none items
  | .mapping _ [(_, .mapping ..)] | .mapping _ [(_, .text ..)] | .mapping _ [(_, .number ..)]
  | .mapping _ [(_, .boolean ..)] =>
      unfold Template.evalBody
      exact h.map (h.evalToken names (depth + 1) _) bodyItems
  | .mapping _ [(_, .null _)] | .mapping _ [] | .mapping _ (_ :: _ :: _) | .sequence ..
  | .null _ | .boolean .. | .number .. | .text .. =>
      unfold Template.evalBody
      exact h.pure []
termination_by sizeOf item

theorem evalEntries (h : Composes l P) (names : Token) (depth : Nat) (chain : Chain)
    (done entries : List Entry) :
    P (List Entry) (Template.evalEntries l names depth chain done entries) := by
  match entries with
  | [] =>
      unfold Template.evalEntries
      exact h.pure done
  | (key, value) :: rest =>
      unfold Template.evalEntries
      split
      · refine h.bind (h.evalKey names (depth + 1) key) fun key => ?_
        refine h.bind (h.evalToken names (depth + 1) value) fun value => ?_
        exact h.bind (h.lift _) fun done => h.evalEntries names depth none done rest
      · refine h.bind (h.lift _) fun branch => ?_
        split
        · next next =>
          refine h.bind (h.evalToken names (depth + 1) value) fun body => ?_
          exact h.bind (h.lift _) fun done => h.evalEntries names depth next done rest
        · next next => exact h.evalEntries names depth next done rest
        · refine h.bind (h.lift _) fun rounds => h.bind ?_ fun done =>
            h.evalEntries names depth none done rest
          refine h.foldlM (fun done names => ?_) rounds done
          exact h.bind (h.evalToken names (depth + 1) value) fun body => h.lift _
termination_by sizeOf entries

end

end Composes

/-! ### Runs -/

/-- A step that returns something, returns it with what it leaves used up. -/
theorem exists_run_of_isSome {x : Charged α} (h : (x.run.run u).1.toOption.isSome) :
    ∃ a, x.run.run u = (.ok a, (x.run.run u).2) := by
  rcases hrun : x.run.run u with ⟨_ | a, u'⟩
  · rw [hrun] at h
    cases h
  · exact ⟨a, rfl⟩

/-- A step without effects that succeeds hands its value on. -/
theorem lift_ok_bind (a : α) (f : α → Charged β) :
    (liftM (.ok a : Except Diagnostic α) : Charged α) >>= f = f a := rfl

/-- What is made of what a step returns is charged as the step is. -/
theorem run_map (x : Charged α) (f : α → β) (u : Usage) :
    (x >>= fun a => Pure.pure (f a)).run.run u = ((x.run.run u).1.map f, (x.run.run u).2) := by
  rw [run_bind]
  rcases x.run.run u with ⟨_ | _, u'⟩ <;> rfl

/-! ### Charges as quantities -/

/-- What is used up when events and bytes are added. -/
def Usage.plus (u : Usage) (events bytes : Nat) : Usage := ⟨u.events + events, u.bytes + bytes⟩

@[simp] theorem Usage.plus_zero (u : Usage) : u.plus 0 0 = u := rfl

@[simp] theorem Usage.plus_plus (u : Usage) (e b e' b' : Nat) :
    (u.plus e b).plus e' b' = u.plus (e + e') (b + b') := by
  simp only [plus, Nat.add_assoc]

/-- A result that is the failure of a limit. -/
def IsLimited (r : Except Diagnostic α) : Prop := ∃ d, r = .error d ∧ d.kind = .limit

theorem not_isLimited_ok (a : α) : ¬ IsLimited (.ok a : Except Diagnostic α) := by
  rintro ⟨d, h, -⟩
  cases h

theorem not_isLimited_of_isSome {r : Except Diagnostic α} (h : r.toOption.isSome) : ¬ IsLimited r := by
  rintro ⟨d, rfl, -⟩
  cases h

/-- A failure is the same of whatever a step was to return. -/
theorem isLimited_error_iff {d : Diagnostic} :
    IsLimited (.error d : Except Diagnostic α) ↔ d.kind = .limit := by
  constructor
  · rintro ⟨d', h, hkind⟩
    cases h
    exact hkind
  · exact fun hkind => ⟨d, rfl, hkind⟩

/-- Where a limit stops neither of two steps, it does not stop the first. -/
theorem not_isLimited_of_bind {x : Charged α} {f : α → Charged β}
    (h : ¬ IsLimited ((x >>= f).run.run u).1) : ¬ IsLimited (x.run.run u).1 := by
  rintro ⟨d, hx, hkind⟩
  rw [run_bind_error (Prod.ext hx rfl)] at h
  exact h (isLimited_error_iff.mpr hkind)

/-- A node that no limit refuses is charged one event. -/
theorem run_enter_of_not_isLimited (h : ¬ IsLimited ((l.enter depth).run.run u).1) :
    (l.enter depth).run.run u = (.ok (), u.plus 1 0) := by
  rw [run_enter, run_chargeEvents] at h ⊢
  split at h
  · exact absurd (isLimited_error_iff.mpr rfl) h
  · next hdepth =>
    split at h
    · exact absurd (isLimited_error_iff.mpr rfl) h
    · next hevents =>
      rw [if_neg hdepth, if_neg hevents]
      rfl

/-- A step comes to one result for one charge: wherever it starts, it does so or a limit stops it. The
events that it is charged fit. -/
def Metered (l : Limits) (α : Type) (x : Charged α) : Prop :=
  ∀ u, ¬ IsLimited (x.run.run u).1 → ∃ events bytes,
    (events = 0 ∨ u.events + events ≤ l.maxEvents) ∧
      ∀ v, x.run.run v = ((x.run.run u).1, v.plus events bytes) ∨ IsLimited (x.run.run v).1

/-- A step that is metered comes to a result for a charge, if it starts anywhere without being stopped. -/
theorem Metered.exists_run {x : Charged α} (h : Metered l α x) (hu : ¬ IsLimited (x.run.run u).1) :
    ∃ r events bytes, (events = 0 ∨ u.events + events ≤ l.maxEvents) ∧
      ∀ v, ¬ IsLimited (x.run.run v).1 → x.run.run v = (r, v.plus events bytes) := by
  obtain ⟨events, bytes, hfits, hrun⟩ := h u hu
  exact ⟨_, events, bytes, hfits, fun v hv => (hrun v).resolve_right hv⟩

theorem metered_lift (x : Except Diagnostic α) : Metered l α (liftM x) :=
  fun _ _ => ⟨0, 0, .inl rfl, fun _ => .inl rfl⟩

theorem Metered.bind {x : Charged α} {f : α → Charged β} (h : Metered l α x)
    (h' : ∀ a, Metered l β (f a)) : Metered l β (x >>= f) := by
  intro u hu
  rcases hx : x.run.run u with ⟨d | a, u₁⟩
  · rw [run_bind_error hx] at hu ⊢
    have hstop : ¬ IsLimited (x.run.run u).1 := by
      rw [hx]
      exact fun hd => hu (isLimited_error_iff.mpr (isLimited_error_iff.mp hd))
    obtain ⟨events, bytes, hfits, hrun⟩ := h u hstop
    rw [hx] at hrun
    refine ⟨events, bytes, hfits, fun v => ?_⟩
    rcases hrun v with hv | ⟨d', hv, hkind⟩
    · exact .inl (run_bind_error hv)
    · rw [run_bind_error (Prod.ext hv rfl)]
      exact .inr ⟨d', rfl, hkind⟩
  · rw [run_bind_ok hx] at hu ⊢
    have hgo : ¬ IsLimited (x.run.run u).1 := by
      rw [hx]
      exact not_isLimited_ok a
    obtain ⟨events, bytes, hfits, hrun⟩ := h u hgo
    rw [hx] at hrun
    obtain ⟨events', bytes', hfits', hrun'⟩ := h' a u₁ hu
    obtain rfl : u₁ = u.plus events bytes := by
      rcases hrun u with hv | hv
      · exact congrArg Prod.snd (hx.symm.trans hv)
      · exact absurd hv hgo
    refine ⟨events + events', bytes + bytes', ?_, fun v => ?_⟩
    · simp only [Usage.plus] at hfits'
      omega
    · rcases hrun v with hv | ⟨d, hv, hkind⟩
      · rw [run_bind_ok hv, ← Usage.plus_plus]
        exact hrun' (v.plus events bytes)
      · rw [run_bind_error (Prod.ext hv rfl)]
        exact .inr ⟨d, rfl, hkind⟩

/-- A charge comes to itself, unless it is over a limit. -/
theorem metered_charge {x : Charged Unit} {d : Diagnostic} {exceeds : Usage → Prop} [DecidablePred exceeds]
    {events bytes : Nat} (hkind : d.kind = .limit)
    (hfits : ∀ u, ¬ exceeds u → events = 0 ∨ u.events + events ≤ l.maxEvents)
    (hrun : ∀ u, x.run.run u = (if exceeds u then .error d else .ok (), u.plus events bytes)) :
    Metered l Unit x := by
  intro u hu
  by_cases hexceeds : exceeds u
  · rw [hrun, if_pos hexceeds] at hu
    exact absurd (isLimited_error_iff.mpr hkind) hu
  · refine ⟨events, bytes, hfits u hexceeds, fun v => ?_⟩
    rw [hrun u, if_neg hexceeds, hrun v]
    split
    · exact .inr (isLimited_error_iff.mpr hkind)
    · exact .inl rfl

theorem metered_chargeBytes (l : Limits) (count : Nat) : Metered l Unit (l.chargeBytes count) := by
  have hrun : ∀ u, (l.chargeBytes count).run.run u =
      (if l.maxBytes < u.bytes + count then .error l.bytesExceeded else .ok (), u.plus 0 count) :=
    run_chargeBytes l count
  exact metered_charge rfl (fun _ _ => .inl rfl) hrun

theorem metered_enter (l : Limits) (depth : Nat) : Metered l Unit (l.enter depth) := by
  by_cases hdepth : l.maxDepth < depth
  · intro u hu
    rw [run_enter, if_pos hdepth] at hu
    exact absurd (isLimited_error_iff.mpr rfl) hu
  · have hrun : ∀ u, (l.enter depth).run.run u =
        (if l.maxEvents < u.events + 1 then .error Limits.eventsExceeded else .ok (), u.plus 1 0) := by
      intro u
      rw [run_enter, if_neg hdepth, run_chargeEvents]
      rfl
    exact metered_charge rfl (fun _ hu => .inr (Nat.le_of_not_lt hu)) hrun

/-- **Evaluations are metered.** -/
theorem composes_metered (l : Limits) : Composes l (Metered l) where
  lift := metered_lift
  bind := Metered.bind
  enter := metered_enter l
  chargeBytes := metered_chargeBytes l

end PipelineExpansion.Template
