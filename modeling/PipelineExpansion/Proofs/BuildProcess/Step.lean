import PipelineExpansion.Proofs.BuildProcess.Task

/-!
# Steps are read back

Groups, overrides and references to templates hold steps and values for templates. Each has a
normal form, which differs from it in the normal forms of the tasks in it, is what is read back,
and is written alike.

## Main results

* `yields_readStep`: what holds of every step that has been read.
* `takes_step`: what a step is written as is read as its normal form.
* `Step.toTree_normal`: a step and its normal form are written alike.
-/

namespace PipelineExpansion.BuildProcess

open Yaml

/-! ### Checkout -/

/-- What holds of every checkout that has been read. -/
structure CheckoutStep.Sound (c : CheckoutStep) : Prop where
  repository : c.repository = "self" ∨ c = { repository := "none" }
  clean : c.clean ≠ some ""
  fetchDepth : c.fetchDepth ≠ some ""
  lfs : c.lfs ≠ some ""

theorem yields_readCheckout : Yields readCheckout CheckoutStep.Sound := by
  refine yields_bind_of_forall fun s => ?_
  split
  · next hself =>
    rw [hself]
    refine Yields.imp (P := fun c => c.repository = "self" ∧ c.Sound) ?_ fun _ h => h.2
    refine yields_untilEnd ⟨rfl, .inl rfl, nofun, nofun, nofun⟩ fun c ⟨hc, h⟩ => ?_
    refine yields_bind_of_forall fun key => ?_
    split
    · exact yields_nonEmpty.bind fun s hs =>
        yields_pure ⟨hc, .inl hc, some_ne_some_empty hs, h.fetchDepth, h.lfs⟩
    · exact yields_nonEmpty.bind fun s hs =>
        yields_pure ⟨hc, .inl hc, h.clean, some_ne_some_empty hs, h.lfs⟩
    · exact yields_nonEmpty.bind fun s hs =>
        yields_pure ⟨hc, .inl hc, h.clean, h.fetchDepth, some_ne_some_empty hs⟩
    · exact yields_failAt _ _ _
  · next hnone =>
    rw [hnone]
    exact yields_bind_of_forall fun _ => yields_pure ⟨.inr rfl, nofun, nofun, nofun⟩
  · exact yields_failAt _ _ _

/-- The entries of a checkout behind its first one. -/
def CheckoutStep.entries (c : CheckoutStep) : List (String × Tree) :=
  textEntry "clean" c.clean ++ textEntry "fetchDepth" c.fetchDepth ++ textEntry "lfs" c.lfs

theorem entries_checkout {c : CheckoutStep} (h : c.Sound) :
    Entries CheckoutStep.property { repository := c.repository } c.entries c := by
  let c₁ : CheckoutStep := { repository := c.repository, clean := c.clean }
  let c₂ : CheckoutStep := { c₁ with fetchDepth := c.fetchDepth }
  have hclean : Entries CheckoutStep.property { repository := c.repository }
      (textEntry "clean" c.clean) c₁ :=
    entries_nonEmpty (fun v => { c₁ with clean := v }) h.clean fun key hkey => by simp only [hkey]
  have hfetch : Entries CheckoutStep.property c₁ (textEntry "fetchDepth" c.fetchDepth) c₂ :=
    entries_nonEmpty (fun v => { c₁ with fetchDepth := v }) h.fetchDepth
      fun key hkey => by simp only [hkey]
  have hlfs : Entries CheckoutStep.property c₂ (textEntry "lfs" c.lfs) c :=
    entries_nonEmpty (fun v => { c₂ with lfs := v }) h.lfs fun key hkey => by simp only [hkey]
  exact (hclean.append hfetch).append hlfs

theorem takes_readCheckout {c : CheckoutStep} (h : c.Sound) :
    Takes readCheckout
      (.scalar c.repository false :: (Tree.entryEvents c.entries ++ [.mappingEnd])) c := by
  refine takes_scalar_bind fun s hs _ => ?_
  rcases h.repository with hself | hnone
  · have hentries := takes_entries (entries_checkout h)
    rw [hself] at hs hentries
    simp only [hs]
    exact hentries
  · rw [hnone] at hs ⊢
    simp only [hs]
    exact takes_expect_bind rfl fun _ => takes_pure _

theorem takes_checkout {c : CheckoutStep} (h : c.Sound) : TakesSimple c.toTree (.checkout c) := by
  have hkeys : (Tree.keys ([("checkout", .text c.repository)] ++ c.entries)).Nodup := by
    refine List.Nodup.sublist ?_
      (by decide : (["checkout"] ++ (["clean"] ++ ["fetchDepth"] ++ ["lfs"])).Nodup)
    rw [CheckoutStep.entries]
    simp only [Tree.keys_append]
    exact (List.Sublist.refl _).append
      (((keys_textEntry _ _).append (keys_textEntry _ _)).append (keys_textEntry _ _))
  have htree : c.toTree = .ofEntries ([("checkout", .text c.repository)] ++ c.entries) := by
    rw [CheckoutStep.toTree, CheckoutStep.entries]
    simp only [List.append_assoc]
  refine ⟨"checkout", _, _, ?_, fun key hkey => ?_,
    (takes_readCheckout h).map SimpleStep.checkout⟩
  · rw [htree, Tree.ofEntries_of_nodup hkeys]
    rfl
  · simp only [simpleStep?, hkey]
    rfl

/-! ### Simple steps -/

/-- What holds of every simple step that has been read. -/
def SimpleStep.Sound : SimpleStep → Prop
  | .task t => t.Sound
  | .checkout c => c.Sound

/-- What is read back of a simple step. -/
def SimpleStep.normal : SimpleStep → SimpleStep
  | .task t => .task t.normal
  | .checkout c => .checkout c

@[simp] theorem SimpleStep.toTree_normal (s : SimpleStep) : s.normal.toTree = s.toTree := by
  cases s with
  | task t => exact t.toTree_normal
  | checkout c => rfl

theorem yields_simpleStep {first : Scalar} {r : Reader SimpleStep}
    (h : simpleStep? first = some r) :
    Yields r SimpleStep.Sound := by
  unfold simpleStep? at h
  split at h
  · next s hfind =>
    cases h
    exact (Shorthand.yields_read (List.mem_of_find?_eq_some hfind)).bind fun t ht =>
      yields_pure ht
  · split at h
    · cases h
      exact yields_readTask.bind fun t ht => yields_pure ht
    · cases h
      exact yields_readCheckout.bind fun c hc => yields_pure hc
    · cases h

theorem takes_simple {s : SimpleStep} (h : s.Sound) : TakesSimple s.toTree s.normal := by
  cases s with
  | task t => exact takes_task h
  | checkout c => exact takes_checkout h

theorem yields_readSimpleStep : Yields readSimpleStep SimpleStep.Sound := by
  refine yields_bind_of_forall fun _ => yields_bind_of_forall fun first => ?_
  split
  · next r hr => exact yields_simpleStep hr
  · split <;> exact yields_failAt _ _ _

theorem takes_simpleStep {s : SimpleStep} (h : s.Sound) :
    Takes readSimpleStep s.toTree.events s.normal := by
  obtain ⟨name, w, r, hevents, hr, htake⟩ := takes_simple h
  rw [hevents]
  refine takes_expect_bind rfl fun _ => takes_scalar_bind fun first hfirst _ => ?_
  simp only [hr first hfirst]
  exact htake

/-- What holds of all simple steps of a list that have been read. -/
def SoundSteps (steps : List SimpleStep) : Prop := ∀ s ∈ steps, s.Sound

theorem yields_readSimpleSteps : Yields readSimpleSteps SoundSteps :=
  yields_sequenceOf yields_readSimpleStep

theorem takes_simpleSteps {steps : List SimpleStep} (h : SoundSteps steps) :
    Takes readSimpleSteps (simpleStepsTree steps).events (steps.map SimpleStep.normal) :=
  takes_sequenceOf fun s hs => takes_simpleStep (h s hs)

@[simp] theorem simpleStepsTree_normal (steps : List SimpleStep) :
    simpleStepsTree (steps.map SimpleStep.normal) = simpleStepsTree steps := by
  simp [simpleStepsTree, Function.comp_def]

/-! ### Values for templates and overrides -/

/-- What holds of all values for a template that have been read. -/
def SoundParameters (parameters : Parameters) : Prop :=
  (Graph.mapping parameters).Fits (Reader.levelsAt 1)

theorem soundParameters_nil : SoundParameters [] := ⟨Dictionary.canonical_nil, nofun⟩

/-- What holds of all overrides that have been read. -/
structure SoundOverrides (o : Overrides) : Prop where
  canonical : o.Canonical
  names : ∀ e ∈ o, e.1 ≠ ""
  steps : ∀ e ∈ o, SoundSteps e.2

theorem soundOverrides_nil : SoundOverrides [] := ⟨Dictionary.canonical_nil, nofun, nofun⟩

/-- What is read back of overrides. -/
def normalOverrides (o : Overrides) : Overrides := o.map fun e => (e.1, e.2.map SimpleStep.normal)

theorem yields_readOverrides : Yields readOverrides SoundOverrides := by
  refine yields_mappingOf soundOverrides_nil fun o h => ?_
  refine yields_nonEmpty.bind fun group hgroup =>
    yields_readSimpleSteps.bind fun steps hsteps => ?_
  refine yields_pure ⟨h.canonical.put, fun e he => ?_, fun e he => ?_⟩
  · rcases Dictionary.mem_put he with rfl | hmem
    · exact hgroup
    · exact h.names e hmem
  · rcases Dictionary.mem_put he with rfl | hmem
    · exact hsteps
    · exact h.steps e hmem

theorem takes_overrides {o : Overrides} (h : SoundOverrides o) :
    Takes readOverrides
      (Tree.ofEntries (o.map fun (group, steps) => (group, simpleStepsTree steps))).events
      (normalOverrides o) := by
  have hkeys : (Tree.keys (o.map fun e => (e.1, simpleStepsTree e.2))).Nodup := by
    rw [Tree.keys, List.map_map]
    exact h.canonical.nodup_names
  have hcanonical : (normalOverrides o).Canonical := List.pairwise_map.mpr h.canonical
  rw [← Dictionary.ofEntries_eq_of_perm hcanonical (.refl _)]
  refine takes_mappingOf hkeys
    (entries_put (· ≠ ·) (fun d e he _ => ?_) (h.canonical.imp ne_of_lt))
  have hsteps := (takes_simpleSteps (h.steps e he)).map (d.put e.1 ·)
  exact (takes_nonEmpty (h.names e he)).bind (f := fun group => readSimpleSteps >>= fun steps =>
    pure (d.put group steps)) hsteps

/-- The entry for values of a template. -/
theorem entries_parameters {σ : Type} {body : σ → Scalar → Reader σ} (set : Parameters → σ)
    {parameters : Parameters} (h : SoundParameters parameters)
    (hbody : ∀ key, key.text = "parameters" →
      body (set []) key = Reader.mapping 1 >>= fun parameters => pure (set parameters)) :
    Entries (fun a => Reader.scalar >>= body a) (set []) (parametersEntry parameters)
      (set parameters) := by
  refine .unless (fun hempty => ?_) fun _ => takes_key ((takes_graphMapping h).map set) hbody
  rw [List.isEmpty_iff.mp hempty]

/-- The entry for overrides. -/
theorem entries_overrides {σ : Type} {body : σ → Scalar → Reader σ} (set : Overrides → σ)
    {o : Overrides} (h : SoundOverrides o)
    (hbody : ∀ key, key.text = "steps" →
      body (set []) key = readOverrides >>= fun o => pure (set o)) :
    Entries (fun a => Reader.scalar >>= body a) (set []) (overridesEntry o)
      (set (normalOverrides o)) := by
  refine .unless (fun hempty => ?_) fun _ => takes_key ((takes_overrides h).map set) hbody
  rw [List.isEmpty_iff.mp hempty]
  rfl

@[simp] theorem overridesEntry_normal (o : Overrides) :
    overridesEntry (normalOverrides o) = overridesEntry o := by
  simp [overridesEntry, normalOverrides, Function.comp_def]

theorem keys_parametersEntry (parameters : Parameters) :
    (Tree.keys (parametersEntry parameters)).Sublist ["parameters"] :=
  keys_unless _ _ _

theorem keys_overridesEntry (o : Overrides) : (Tree.keys (overridesEntry o)).Sublist ["steps"] :=
  keys_unless _ _ _

/-! ### Steps -/

/-- What holds of every reference to a template of steps that has been read. -/
structure StepsReference.Sound (r : StepsReference) : Prop where
  path : r.path ≠ ""
  parameters : SoundParameters r.parameters
  overrides : SoundOverrides r.overrides

/-- What holds of every step that has been read. -/
def Step.Sound : Step → Prop
  | .simple s => s.Sound
  | .group name steps => name ≠ "" ∧ SoundSteps steps
  | .template r => r.Sound

/-- What is read back of a step. -/
def Step.normal : Step → Step
  | .simple s => .simple s.normal
  | .group name steps => .group name (steps.map SimpleStep.normal)
  | .template r => .template { r with overrides := normalOverrides r.overrides }

/-- **A step and its normal form are written alike.** -/
@[simp] theorem Step.toTree_normal (s : Step) : s.normal.toTree = s.toTree := by
  cases s with
  | simple s => exact s.toTree_normal
  | group name steps => simp [normal, toTree]
  | template r => simp [normal, toTree]

theorem yields_readGroup : Yields readGroup Step.Sound := by
  refine yields_nonEmpty.bind fun name hname => ?_
  refine Yields.bind (P := SoundSteps) ?_ fun steps hsteps => yields_pure ⟨hname, hsteps⟩
  refine yields_untilEnd nofun fun _ _ => yields_bind_of_forall fun key => ?_
  split
  · exact yields_readSimpleSteps
  · exact yields_failAt _ _ _

theorem StepsReference.yields_property {r : StepsReference} (h : r.Sound) :
    Yields r.property Sound := by
  refine yields_bind_of_forall fun key => ?_
  split
  · exact (yields_mapping 1).bind fun parameters hp => yields_pure ⟨h.path, hp, h.overrides⟩
  · exact yields_readOverrides.bind fun o ho => yields_pure ⟨h.path, h.parameters, ho⟩
  · exact yields_failAt _ _ _

/-- **Every step that has been read is sound.** -/
theorem yields_readStep : Yields readStep Step.Sound := by
  refine yields_bind_of_forall fun _ => yields_bind_of_forall fun first => ?_
  split
  · next r hr => exact (yields_simpleStep hr).bind fun s hs => yields_pure hs
  · split
    · exact yields_readGroup
    · refine yields_nonEmpty.bind fun path hpath => ?_
      refine Yields.bind (P := StepsReference.Sound) ?_ fun r hr => yields_pure hr
      exact yields_untilEnd ⟨hpath, soundParameters_nil, soundOverrides_nil⟩ fun r hr =>
        r.yields_property hr
    · exact yields_failAt _ _ _

theorem takes_group {name : String} (hname : name ≠ "") {steps : List SimpleStep}
    (h : SoundSteps steps) :
    Takes readGroup (.scalar name false :: (Tree.entryEvents
      (if steps.isEmpty then [] else [("steps", simpleStepsTree steps)]) ++ [.mappingEnd]))
      (.group name (steps.map SimpleStep.normal)) := by
  have hentries : Entries (fun _ => do
      let key ← Reader.scalar
      if key.text = "steps" then readSimpleSteps else unexpectedProperty key) []
      (if steps.isEmpty then [] else [("steps", simpleStepsTree steps)])
        (steps.map SimpleStep.normal) := by
    refine .unless (fun hempty => ?_) fun _ => takes_key (takes_simpleSteps h) fun key hkey =>
      if_pos hkey
    rw [List.isEmpty_iff.mp hempty]
    rfl
  exact (takes_nonEmpty hname).bind ((takes_entries hentries).map (Step.group name))

theorem takes_stepsReference {r : StepsReference} (h : r.Sound) :
    Takes (Reader.nonEmpty >>= fun path =>
        Reader.untilEnd .mappingEnd { path := path } StepsReference.property >>= fun r =>
          pure (.template r))
      (.scalar r.path false ::
        (Tree.entryEvents (parametersEntry r.parameters ++ overridesEntry r.overrides)
          ++ [.mappingEnd]))
      (Step.template { r with overrides := normalOverrides r.overrides }) := by
  have hentries : Entries StepsReference.property { path := r.path }
      (parametersEntry r.parameters ++ overridesEntry r.overrides)
      { r with overrides := normalOverrides r.overrides } := by
    refine (entries_parameters (fun v => StepsReference.mk r.path v []) h.parameters ?_).append
      (entries_overrides (fun v => StepsReference.mk r.path r.parameters v) h.overrides ?_)
    all_goals exact fun key hkey => by simp only [hkey]
  exact (takes_nonEmpty h.path).bind ((takes_entries hentries).map Step.template)

/-- **What a step is written as is read as its normal form.** -/
theorem takes_step {s : Step} (h : s.Sound) : Takes readStep s.toTree.events s.normal := by
  cases s with
  | simple s =>
      obtain ⟨name, w, r, hevents, hr, htake⟩ := takes_simple h
      rw [Step.toTree, hevents]
      refine takes_expect_bind rfl fun _ => takes_scalar_bind fun first hfirst _ => ?_
      simp only [hr first hfirst]
      exact htake.map Step.simple
  | group name steps =>
      have hkeys : (Tree.keys ([("group", .text name)]
          ++ if steps.isEmpty then [] else [("steps", simpleStepsTree steps)])).Nodup := by
        refine List.Nodup.sublist ?_ (by decide : (["group"] ++ ["steps"]).Nodup)
        rw [Tree.keys_append]
        exact (List.Sublist.refl _).append (keys_unless _ _ _)
      rw [Step.toTree, Tree.ofEntries_of_nodup hkeys]
      refine takes_expect_bind rfl fun _ => takes_scalar_bind fun first hfirst _ => ?_
      simp only [simpleStep?, hfirst]
      exact takes_group h.1 h.2
  | template r =>
      have hkeys : (Tree.keys ([("template", .text r.path)] ++ parametersEntry r.parameters
          ++ overridesEntry r.overrides)).Nodup := by
        refine List.Nodup.sublist ?_
          (by decide : (["template"] ++ ["parameters"] ++ ["steps"]).Nodup)
        simp only [Tree.keys_append]
        exact ((List.Sublist.refl _).append (keys_parametersEntry _)).append
          (keys_overridesEntry _)
      rw [Step.toTree, Tree.ofEntries_of_nodup hkeys]
      refine takes_expect_bind rfl fun _ => takes_scalar_bind fun first hfirst _ => ?_
      simp only [simpleStep?, hfirst]
      exact takes_stepsReference h

theorem yields_readSteps : Yields readSteps fun steps => ∀ s ∈ steps, s.Sound :=
  yields_sequenceOf yields_readStep

theorem takes_steps {steps : List Step} (h : ∀ s ∈ steps, s.Sound) :
    Takes readSteps (stepsTree steps).events (steps.map Step.normal) :=
  takes_sequenceOf fun s hs => takes_step (h s hs)

@[simp] theorem stepsTree_normal (steps : List Step) :
    stepsTree (steps.map Step.normal) = stepsTree steps := by
  simp [stepsTree, Function.comp_def]

end PipelineExpansion.BuildProcess
