import PipelineExpansion.Proofs.Outcome
import PipelineExpansion.Template.Limits

/-!
# What steps are charged

A step that is charged goes through until a limit stops it. `Charges` says of a step what it
yields, how many events it is charged, and how deep the deepest node is that it enters; the limits
decide from these two numbers alone whether the step succeeds. Steps one after another add their
events, and enter the deeper of their deepest nodes (`Charges.bind`).
-/

namespace PipelineExpansion.Template

variable {α β : Type}

/-- Whether limits let a step through: no node is too deep, and the events fit. A step without
events needs no room for them. -/
def Limits.Admits (l : Limits) (u : Usage) (events deepest : Nat) : Prop :=
  deepest ≤ l.maxDepth ∧ (events = 0 ∨ u.events + events ≤ l.maxEvents)

/-- A step yields a value for a number of events, and enters nodes down to a depth. Where the
limits do not admit that, it fails with one of them. -/
def Charges (l : Limits) (step : Charged α) (a : α) (events deepest : Nat) : Prop :=
  ∀ u : Usage,
    (l.Admits u events deepest → step.run.run u
      = (.ok a, { u with events := u.events + events })) ∧
      (¬ l.Admits u events deepest → ∃ d u', step.run.run u = (.error d, u') ∧ d.kind = .limit)

/-! ### Running steps -/

theorem run_bind_ok {step : Charged α} {f : α → Charged β} {u u' : Usage} {a : α}
    (h : step.run.run u = (.ok a, u')) : (step >>= f).run.run u = (f a).run.run u' := by
  rw [run_bind, h]

theorem run_bind_error {step : Charged α} {f : α → Charged β} {u u' : Usage} {d : Diagnostic}
    (h : step.run.run u = (.error d, u')) : (step >>= f).run.run u = (.error d, u') := by
  rw [run_bind, h]

/-- Events are recorded whether or not they fit. -/
theorem run_chargeEvents (l : Limits) (count : Nat) (u : Usage) :
    (l.chargeEvents count).run.run u =
      (if l.maxEvents < u.events + count then .error Limits.eventsExceeded else .ok (),
        { u with events := u.events + count }) := by
  have hmodify : (modify fun u => { u with events := u.events + count } : Charged Unit).run.run u
      = (.ok (), { u with events := u.events + count }) := rfl
  have hget : ∀ u : Usage, (get : Charged Usage).run.run u = (.ok u, u) := fun _ => rfl
  rw [Limits.chargeEvents, run_bind_ok hmodify, run_bind_ok (hget _)]
  split <;> rfl

/-- Bytes are recorded whether or not they fit. -/
theorem run_chargeBytes (l : Limits) (count : Nat) (u : Usage) :
    (l.chargeBytes count).run.run u =
      (if l.maxBytes < u.bytes + count then .error l.bytesExceeded else .ok (),
        { u with bytes := u.bytes + count }) := by
  have hmodify : (modify fun u => { u with bytes := u.bytes + count } : Charged Unit).run.run u
      = (.ok (), { u with bytes := u.bytes + count }) := rfl
  have hget : ∀ u : Usage, (get : Charged Usage).run.run u = (.ok u, u) := fun _ => rfl
  rw [Limits.chargeBytes, run_bind_ok hmodify, run_bind_ok (hget _)]
  split <;> rfl

/-- A node that is too deep is refused before it is charged. -/
theorem run_enter (l : Limits) (depth : Nat) (u : Usage) :
    (l.enter depth).run.run u =
      if l.maxDepth < depth then (.error l.depthExceeded, u)
      else (l.chargeEvents 1).run.run u := by
  rw [Limits.enter]
  split <;> rfl

/-! ### Composing charges -/

/-- A value alone is free. -/
theorem Charges.pure (l : Limits) (a : α) : Charges l (pure a) a 0 0 := by
  intro u
  refine ⟨fun _ => rfl, fun h => absurd ⟨Nat.zero_le _, .inl rfl⟩ h⟩

/-- Of two steps, the second is charged on top of the first. -/
theorem Charges.bind {l : Limits} {step : Charged α} {f : α → Charged β} {a : α} {b : β}
    {m n d e : Nat} (h₁ : Charges l step a m d) (h₂ : Charges l (f a) b n e) :
    Charges l (step >>= f) b (m + n) (max d e) := by
  intro u
  have hadmits : l.Admits u (m + n) (max d e) ↔
      l.Admits u m d ∧ l.Admits { u with events := u.events + m } n e := by
    simp only [Limits.Admits]
    omega
  rw [hadmits]
  by_cases hfirst : l.Admits u m d
  · have hrun := (h₁ u).1 hfirst
    rw [run_bind_ok hrun]
    obtain ⟨hok, hfail⟩ := h₂ { u with events := u.events + m }
    refine ⟨fun h => ?_, fun h => hfail fun hsecond => h ⟨hfirst, hsecond⟩⟩
    rw [hok h.2, Nat.add_assoc]
  · obtain ⟨diag, u', hrun, hkind⟩ := (h₁ u).2 hfirst
    exact ⟨fun h => absurd h.1 hfirst, fun _ => ⟨diag, u', run_bind_error hrun, hkind⟩⟩

/-- A step whose value is turned into another is charged as before. -/
theorem Charges.map {l : Limits} {step : Charged α} {a : α} {n d : Nat} (h : Charges l step a n d)
    (f : α → β) : Charges l (step >>= fun a => Pure.pure (f a)) (f a) n d := by
  have hbind := h.bind (f := fun a => Pure.pure (f a)) (.pure l (f a))
  rwa [Nat.add_zero, Nat.max_zero] at hbind

/-- Entering a node is one event at its depth. -/
theorem Charges.enter (l : Limits) (depth : Nat) : Charges l (l.enter depth) () 1 depth := by
  intro u
  rw [run_enter]
  by_cases hdepth : l.maxDepth < depth
  · refine ⟨fun h => absurd h.1 (Nat.not_le_of_gt hdepth), fun _ => ?_⟩
    exact ⟨l.depthExceeded, u, if_pos hdepth, rfl⟩
  · rw [if_neg hdepth, run_chargeEvents]
    by_cases hevents : l.maxEvents < u.events + 1
    · rw [if_pos hevents]
      refine ⟨fun h => ?_, fun _ => ⟨Limits.eventsExceeded, _, rfl, rfl⟩⟩
      rcases h.2 with h | h
      · cases h
      · exact absurd h (Nat.not_le_of_gt hevents)
    · rw [if_neg hevents]
      refine ⟨fun _ => rfl, fun h => absurd ?_ h⟩
      exact ⟨Nat.le_of_not_gt hdepth, .inr (Nat.le_of_not_gt hevents)⟩

end PipelineExpansion.Template
