import PipelineExpansion.Pipeline.Strategy
import PipelineExpansion.Proofs.Pipeline.Container
import PipelineExpansion.Proofs.Pipeline.Step

/-!
# Strategies are read back from their tokens

A strategy is read for a job or for a deployment, and what belongs to the other kind is passed over.
Hence a strategy that has been read says nothing that its kind does not have (`SoundForJob`,
`SoundForDeployment`), and its token, which would say it all, is read back for that kind.

## Main results

* `yields_strategy`: strategies that have been read are sound for their kind.
* `Strategy.ofToken?_toToken`: a strategy that is sound for a kind is read back for it.
-/

namespace PipelineExpansion.Pipeline

open Template (Context Entry Key Resolve Token)
open Template.Resolve

variable {tasks : Option Task.Catalog} {refs : References} {c : Context} {t : Token}

/-! ### What holds of strategies that have been read -/

/-- The steps of a hook are sound. -/
def Hook.Sound (tasks : Option Task.Catalog) (h : Hook) : Prop :=
  ∀ steps ∈ h.steps, ∀ s ∈ steps, s.Sound tasks

/-- The parts of a rollout are sound. -/
structure Hooks.Sound (tasks : Option Task.Catalog) (h : Hooks) : Prop where
  preDeploy : ∀ hook ∈ h.preDeploy, hook.Sound tasks
  deploy : ∀ hook ∈ h.deploy, hook.Sound tasks
  routeTraffic : ∀ hook ∈ h.routeTraffic, hook.Sound tasks
  postRouteTraffic : ∀ hook ∈ h.postRouteTraffic, hook.Sound tasks
  onFailure : ∀ hook ∈ h.onFailure, hook.Sound tasks
  onSuccess : ∀ hook ∈ h.onSuccess, hook.Sound tasks

/-- Parts of a rollout without a number in parallel and without increments. -/
structure Hooks.Plain (tasks : Option Task.Catalog) (h : Hooks) : Prop extends h.Sound tasks where
  maxParallel : h.maxParallel = none
  increments : h.increments = none

/-- What holds of every strategy that has been read for a job. -/
structure Strategy.SoundForJob (s : Strategy) : Prop where
  matrix : ∀ m ∈ s.matrix, m.Canonical ∧ ∀ e ∈ m, Dictionary.Canonical e.2
  runOnce : s.runOnce = none
  rolling : s.rolling = none
  canary : s.canary = none

/-- What holds of every strategy that has been read for a deployment. -/
structure Strategy.SoundForDeployment (tasks : Option Task.Catalog) (s : Strategy) : Prop where
  parallel : s.parallel = none
  matrix : s.matrix = none
  matrixExpression : s.matrixExpression = none
  maxParallel : s.maxParallel = none
  runOnce : ∀ h ∈ s.runOnce, h.Plain tasks
  rolling : ∀ h ∈ s.rolling, h.Sound tasks ∧ h.increments = none
  canary : ∀ h ∈ s.canary, h.Sound tasks ∧ h.maxParallel = none

/-- What holds of every strategy that has been read for a kind of job. -/
def Strategy.Sound (tasks : Option Task.Catalog) (deployment : Bool) (s : Strategy) : Prop :=
  if deployment then s.SoundForDeployment tasks else s.SoundForJob

theorem yields_hookRead (hrefs : refs.SoundSteps) {h : Hook} (hh : h.Sound c.tasks) (e : Entry) :
    Yields (Hook.read refs c h e) (Hook.Sound c.tasks) := by
  unfold Hook.read
  split
  · refine (yields_stepList hrefs c e.2).bind fun steps hsteps => ?_
    exact yields_pure (by rintro _ ⟨⟩; exact hsteps)
  · refine yields_bind_of_forall fun pool => ?_
    exact yields_pure hh
  · exact yields_pure hh

theorem yields_hook (hrefs : refs.SoundSteps) (c : Context) (t : Token) :
    Yields (Hook.ofToken? refs c t) (Hook.Sound c.tasks) := by
  unfold Hook.ofToken?
  refine yields_bind_of_forall fun entries => ?_
  exact yields_foldlM (fun _ e hh => yields_hookRead hrefs hh e) (by rintro _ ⟨⟩) entries

theorem yields_readOutcome (hrefs : refs.SoundSteps) {h : Hooks} (hh : h.Plain c.tasks)
    (e : Entry) : Yields (Hooks.readOutcome refs c h e) (Hooks.Plain c.tasks) := by
  unfold Hooks.readOutcome
  split
  · refine (yields_hook hrefs c e.2).bind fun hook hhook => ?_
    exact yields_pure { hh with onFailure := by rintro _ ⟨⟩; exact hhook }
  · refine (yields_hook hrefs c e.2).bind fun hook hhook => ?_
    exact yields_pure { hh with onSuccess := by rintro _ ⟨⟩; exact hhook }
  · exact yields_pure hh

theorem yields_hooksRead (hrefs : refs.SoundSteps) {h : Hooks} (hh : h.Plain c.tasks)
    (e : Entry) : Yields (Hooks.read refs c h e) (Hooks.Plain c.tasks) := by
  unfold Hooks.read
  split
  case h_5 =>
    refine yields_bind_of_forall fun entries => ?_
    exact yields_foldlM (fun _ e hh => yields_readOutcome hrefs hh e) hh entries
  case h_6 => exact yields_pure hh
  all_goals refine (yields_hook hrefs c e.2).bind fun hook hhook => ?_
  · exact yields_pure { hh with preDeploy := by rintro _ ⟨⟩; exact hhook }
  · exact yields_pure { hh with deploy := by rintro _ ⟨⟩; exact hhook }
  · exact yields_pure { hh with routeTraffic := by rintro _ ⟨⟩; exact hhook }
  · exact yields_pure { hh with postRouteTraffic := by rintro _ ⟨⟩; exact hhook }

theorem yields_hooks (hrefs : refs.SoundSteps) (c : Context) (t : Token) :
    Yields (Hooks.ofToken? refs c t) (Hooks.Plain c.tasks) := by
  unfold Hooks.ofToken?
  refine yields_bind_of_forall fun entries => ?_
  refine yields_foldlM (fun _ e hh => yields_hooksRead hrefs hh e) ?_ entries
  constructor <;> first | rfl | (constructor <;> exact fun _ h => nomatch h)

theorem ensures_addLeg {m : Dictionary (Dictionary String)}
    (h : m.Canonical ∧ ∀ e ∈ m, Dictionary.Canonical e.2) (e : Entry) :
    Ensures (addLeg m e) fun m => m.Canonical ∧ ∀ e ∈ m, Dictionary.Canonical e.2 := by
  refine ensures_bind_of_forall fun entries => ?_
  refine ensures_pure ⟨h.1.put, fun leg hleg => ?_⟩
  rcases Dictionary.mem_put hleg with rfl | hmem
  · exact Dictionary.canonical_foldl_put entries .nil
  · exact h.2 leg hmem

theorem ensures_readForJob {s : Strategy} (h : s.SoundForJob) (e : Entry) :
    Ensures (s.readForJob e) Strategy.SoundForJob := by
  obtain ⟨key, value⟩ := e
  unfold Strategy.readForJob
  simp only
  split
  case h_3 =>
    split
    · refine ensures_bind_of_forall fun _ => ?_
      exact ensures_pure { h with }
    · refine ensures_bind_of_forall fun entries => ?_
      refine (ensures_foldlM (fun _ e hm => ensures_addLeg hm e)
        ⟨Dictionary.canonical_nil, List.forall_mem_nil _⟩ entries).bind fun m hm => ?_
      exact ensures_pure { h with matrix := by rintro _ ⟨⟩; exact hm }
  case h_4 => exact ensures_ok h
  all_goals
    refine ensures_bind_of_forall fun _ => ?_
    exact ensures_pure { h with }

theorem yields_readForDeployment (hrefs : refs.SoundSteps) {s : Strategy}
    (h : s.SoundForDeployment c.tasks) (e : Entry) :
    Yields (Strategy.readForDeployment refs c s e) (Strategy.SoundForDeployment c.tasks) := by
  obtain ⟨key, value⟩ := e
  unfold Strategy.readForDeployment
  simp only
  split
  case h_4 => exact yields_pure h
  all_goals refine (yields_hooks hrefs c value).bind fun hooks hhooks => ?_
  · exact yields_pure { h with runOnce := by rintro _ ⟨⟩; exact hhooks }
  · refine yields_bind_of_forall fun maxParallel => ?_
    exact yields_pure
      { h with rolling := by rintro _ ⟨⟩; exact ⟨{ hhooks with }, hhooks.increments⟩ }
  · refine yields_bind_of_forall fun increments => ?_
    exact yields_pure
      { h with canary := by rintro _ ⟨⟩; exact ⟨{ hhooks with }, hhooks.maxParallel⟩ }

/-- **Strategies that have been read are sound for their kind.** -/
theorem yields_strategy (hrefs : refs.SoundSteps) (c : Context) (t : Token) (deployment : Bool) :
    Yields (Strategy.ofToken? refs c t deployment) (Strategy.Sound c.tasks deployment) := by
  unfold Strategy.ofToken? Strategy.Sound
  refine yields_bind_of_forall fun entries => ?_
  cases deployment with
  | true =>
      simp only [if_true]
      refine yields_foldlM (fun _ e h => yields_readForDeployment hrefs h e) ?_ entries
      constructor <;> first | rfl | exact fun _ h => nomatch h
  | false =>
      simp only [Bool.false_eq_true, if_false]
      refine yields_ofExcept (ensures_foldlM (fun _ e h => ensures_readForJob h e) ?_ entries)
      exact ⟨fun _ h => (nomatch h), rfl, rfl, rfl⟩

/-! ### Hooks are read back -/

theorem Hook.ofToken?_toToken {h : Hook} (hh : h.Sound tasks) (hc : c.tasks = tasks) :
    Hook.ofToken? refs c h.toToken = pure h := by
  suffices Leads (Hook.read refs c) {} _ h from this
  refine Leads.append (leads_field (fun a o => { a with steps := o }) rfl
    (fun steps hsteps => bind_of_eq_pure
      (stepList_stepsToken (hh steps hsteps) hc rfl) _) rfl) ?_
  exact leads_field (fun a o => { a with pool := o }) rfl
    (fun pool _ => bind_of_eq_pure (congrArg Resolve.ofExcept pool.ofToken?_toToken) _) rfl

/-- What is said of outcomes is written apart from the rest, if there is anything to say. -/
theorem leads_outcomes {a b : Hooks} {outcomes : List (String × Token)}
    (h : Leads (Hooks.readOutcome refs c) a outcomes b) :
    Leads (Hooks.read refs c) a (if outcomes.isEmpty then [] else [("on", .ofPairs outcomes)])
      b := by
  split
  · next hempty =>
    rw [List.isEmpty_iff.mp hempty] at h
    exact h
  · exact .single h

theorem Hooks.ofToken?_toToken {h : Hooks} (hh : h.Sound tasks) (hc : c.tasks = tasks) :
    Hooks.ofToken? refs c h.toToken = pure { h with maxParallel := none, increments := none } := by
  have hhook {hook : Hook} (hhook : hook.Sound tasks) (f : Hook → Resolve Hooks) :
      Hook.ofToken? refs c hook.toToken >>= f = f hook :=
    bind_of_eq_pure (Hook.ofToken?_toToken hhook hc) f
  suffices Leads (Hooks.read refs c) {} _ { h with maxParallel := none, increments := none }
    from this
  simp only [List.append_assoc]
  refine Leads.append (leads_field (fun a o => { a with preDeploy := o }) rfl
    (fun hook hmem => hhook (hh.preDeploy hook hmem) _) rfl) ?_
  refine Leads.append (leads_field (fun a o => { a with deploy := o }) rfl
    (fun hook hmem => hhook (hh.deploy hook hmem) _) rfl) ?_
  refine Leads.append (leads_field (fun a o => { a with routeTraffic := o }) rfl
    (fun hook hmem => hhook (hh.routeTraffic hook hmem) _) rfl) ?_
  refine Leads.append (leads_field (fun a o => { a with postRouteTraffic := o }) rfl
    (fun hook hmem => hhook (hh.postRouteTraffic hook hmem) _) rfl) ?_
  refine Leads.append (leads_outcomes (Leads.append
    (leads_field (fun a o => { a with onFailure := o }) rfl
      (fun hook hmem => hhook (hh.onFailure hook hmem) _) rfl)
    (leads_field (fun a o => { a with onSuccess := o }) rfl
      (fun hook hmem => hhook (hh.onSuccess hook hmem) _) rfl))) ?_
  exact Leads.append (leads_field (fun a _ => a) rfl (fun _ _ => rfl) rfl)
    (leads_field (fun a _ => a) rfl (fun _ _ => rfl) rfl)

/-- What is said of outcomes does not say anything under another name. -/
theorem find?_outcomes (outcomes : List (String × Token)) {name : String} (h : "on" ≠ name) :
    ((if outcomes.isEmpty then [] else [("on", Token.ofPairs outcomes)]).find? fun p =>
      p.1 = name) = none := by
  split
  · rfl
  · simp [h]

theorem Hooks.get?_maxParallel (h : Hooks) :
    h.toToken.get? "maxParallel" = h.maxParallel.map Token.ofText := by
  rw [toToken, get?_ofPairs]
  simp only [List.find?_append, find?_field, find?_outcomes _ (by decide : "on" ≠ "maxParallel")]
  cases h.maxParallel <;> simp

theorem Hooks.get?_increments (h : Hooks) :
    h.toToken.get? "increments" = h.increments.map textsToken := by
  rw [toToken, get?_ofPairs]
  simp only [List.find?_append, find?_field, find?_outcomes _ (by decide : "on" ≠ "increments")]
  cases h.increments <;> simp

theorem parallelOf_toToken (h : Hooks) : parallelOf h.toToken = .ok h.maxParallel := by
  rw [parallelOf, h.get?_maxParallel]
  cases h.maxParallel <;> rfl

theorem incrementsOf_toToken (h : Hooks) : incrementsOf h.toToken = .ok h.increments := by
  rw [incrementsOf, h.get?_increments]
  cases h.increments with
  | none => rfl
  | some increments =>
      exact bind_of_eq_pure
        (mapM_ok (f := (Token.expectText · "increments")) (fun _ => rfl) increments) _

/-! ### Strategies are read back -/

theorem addLeg_toToken (m : Dictionary (Dictionary String)) (name : String)
    {leg : Dictionary String} (h : leg.Canonical) :
    addLeg m (madeEntry (name, pairsToken leg)) = .ok (m.put name leg) := by
  refine (bind_of_eq_pure (expectTextMap_pairsToken leg _) _).trans ?_
  rw [Dictionary.ofEntries_eq_of_perm h (.refl _)]
  rfl

theorem Strategy.ofToken?_toToken_job {s : Strategy} (h : s.SoundForJob) :
    Strategy.ofToken? refs c s.toToken false = pure s := by
  suffices Leads Strategy.readForJob {} _ s from congrArg Resolve.ofExcept this
  simp only [List.append_assoc]
  refine Leads.append
    (leads_field (fun a o => { a with parallel := o }) rfl (fun _ _ => rfl) rfl) ?_
  refine Leads.append
    (leads_field (fun a o => { a with matrixExpression := o }) rfl (fun _ _ => rfl) rfl) ?_
  refine Leads.append (leads_field (fun a o => { a with matrix := o }) rfl
    (fun m hm => bind_of_eq_pure (leads_put (h.matrix m hm).1 fun leg hleg m' =>
      addLeg_toToken m' leg.1 ((h.matrix m hm).2 leg hleg)) _) rfl) ?_
  refine Leads.append
    (leads_field (fun a o => { a with maxParallel := o }) rfl (fun _ _ => rfl) rfl) ?_
  -- The reader would pass over the kinds of rollouts, so it matters that there are none.
  refine Leads.append (leads_field (fun a o => { a with runOnce := o }) rfl
    (fun _ hx => nomatch h.runOnce.symm.trans hx) rfl) ?_
  refine Leads.append (leads_field (fun a o => { a with rolling := o }) rfl
    (fun _ hx => nomatch h.rolling.symm.trans hx) rfl) ?_
  exact leads_field (fun a o => { a with canary := o }) rfl
    (fun _ hx => nomatch h.canary.symm.trans hx) rfl

theorem Strategy.read_runOnce (s : Strategy) {h : Hooks} (hh : h.Plain tasks)
    (hc : c.tasks = tasks) :
    Strategy.readForDeployment refs c s (madeEntry ("runOnce", h.toToken))
      = pure { s with runOnce := some h } := by
  refine (bind_of_eq_pure (Hooks.ofToken?_toToken hh.toSound hc) _).trans ?_
  rw [← hh.maxParallel, ← hh.increments]

theorem Strategy.read_rolling (s : Strategy) {h : Hooks} (hh : h.Sound tasks)
    (hnone : h.increments = none) (hc : c.tasks = tasks) :
    Strategy.readForDeployment refs c s (madeEntry ("rolling", h.toToken))
      = pure { s with rolling := some h } := by
  refine (bind_of_eq_pure (Hooks.ofToken?_toToken hh hc) _).trans ?_
  refine (bind_of_eq_pure (congrArg Resolve.ofExcept (parallelOf_toToken h)) _).trans ?_
  rw [← hnone]

theorem Strategy.read_canary (s : Strategy) {h : Hooks} (hh : h.Sound tasks)
    (hnone : h.maxParallel = none) (hc : c.tasks = tasks) :
    Strategy.readForDeployment refs c s (madeEntry ("canary", h.toToken))
      = pure { s with canary := some h } := by
  refine (bind_of_eq_pure (Hooks.ofToken?_toToken hh hc) _).trans ?_
  refine (bind_of_eq_pure (congrArg Resolve.ofExcept (incrementsOf_toToken h)) _).trans ?_
  rw [← hnone]

theorem Strategy.ofToken?_toToken_deployment {s : Strategy} (h : s.SoundForDeployment tasks)
    (hc : c.tasks = tasks) : Strategy.ofToken? refs c s.toToken true = pure s := by
  suffices Leads (Strategy.readForDeployment refs c) {} _ s from this
  simp only [List.append_assoc]
  -- The reader would pass over what multiplies a job, so it matters that there is nothing of it.
  refine Leads.append (leads_field (fun a o => { a with parallel := o }) rfl
    (fun _ hx => nomatch h.parallel.symm.trans hx) rfl) ?_
  refine Leads.append (leads_field (fun a o => { a with matrixExpression := o }) rfl
    (fun _ hx => nomatch h.matrixExpression.symm.trans hx) rfl) ?_
  refine Leads.append (leads_field (fun a o => { a with matrix := o }) rfl
    (fun _ hx => nomatch h.matrix.symm.trans hx) rfl) ?_
  refine Leads.append (leads_field (fun a o => { a with maxParallel := o }) rfl
    (fun _ hx => nomatch h.maxParallel.symm.trans hx) rfl) ?_
  refine Leads.append (leads_field (fun a o => { a with runOnce := o }) rfl
    (fun hooks hmem => read_runOnce _ (h.runOnce hooks hmem) hc) rfl) ?_
  refine Leads.append (leads_field (fun a o => { a with rolling := o }) rfl
    (fun hooks hmem => read_rolling _ (h.rolling hooks hmem).1 (h.rolling hooks hmem).2 hc) rfl) ?_
  exact leads_field (fun a o => { a with canary := o }) rfl
    (fun hooks hmem => read_canary _ (h.canary hooks hmem).1 (h.canary hooks hmem).2 hc) rfl

/-- **A strategy that is sound for a kind of job is read back for it.** -/
theorem Strategy.ofToken?_toToken {s : Strategy} {deployment : Bool}
    (h : s.Sound tasks deployment) (hc : c.tasks = tasks) :
    Strategy.ofToken? refs c s.toToken deployment = pure s := by
  cases deployment with
  | true => exact ofToken?_toToken_deployment h hc
  | false => exact ofToken?_toToken_job h

end PipelineExpansion.Pipeline
