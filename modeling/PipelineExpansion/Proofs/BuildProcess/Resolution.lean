import PipelineExpansion.Proofs.BuildProcess.Document
import PipelineExpansion.Proofs.Template.Journal

/-!
# Resolution puts everything in place

`resolve` puts what templates hold in the place of the references to them. A template of steps or of
variables holds no references itself, and neither does a group or an override
(`run_readSimpleStep_eq_ok` and its like), so that one step of resolution is enough for each list; a
template of phases refers to no other, so that the same is true of phases. What is left is `Resolved`:
nothing in it is taken from a template any more.

Resolution also keeps what holds of everything that has been read. There is one exception: a template of
phases may be steps alone, and the phase that these become has no name (`Phase.Spliced.bare`).

## Main results

* `yields_resolve`: a process that has been resolved is `Spliced`, sound but for names of phases, and
  `Continues` the process that was read.
* `Spliced.resolved`: nothing in such a process is taken from a template.
* `Spliced.sound_iff`: it is sound when all its phases have names.
-/

namespace PipelineExpansion.BuildProcess

open Template.Journaled

/-! ### Nothing is taken from a template -/

/-- Whether a step is taken from a template. -/
def Step.isTemplate : Step → Bool
  | .template _ => true
  | _ => false

/-- A step and the steps in it: those of a group, and those that a reference puts in the place of
groups. -/
def Step.parts : Step → List Step
  | .simple s => [.simple s]
  | .group name steps => .group name steps :: steps.map .simple
  | .template r => .template r :: r.overrides.flatMap fun e => e.2.map .simple

/-- Neither a step nor anything in it is taken from a template. -/
def Step.Resolved (s : Step) : Prop := ∀ t ∈ s.parts, t.isTemplate = false

/-- A variable is not taken from a template. -/
def Variable.Resolved : Variable → Prop
  | .value _ => True
  | .template .. => False

/-- Nothing in a phase is taken from a template. -/
structure Phase.Resolved (p : Phase) : Prop where
  vars : ∀ v ∈ p.vars, v.Resolved
  steps : ∀ s ∈ p.steps, s.Resolved

/-- Neither an entry of a list of phases nor anything in it is taken from a template. -/
def PhaseEntry.Resolved : PhaseEntry → Prop
  | .phase p => p.Resolved
  | .template _ => False

/-- Neither a process nor anything in it is taken from a template. -/
structure Resolved (p : BuildProcess) : Prop where
  template : p.template = none
  phases : ∀ entries ∈ p.phases, ∀ e ∈ entries, e.Resolved
  vars : ∀ vars ∈ p.vars, ∀ v ∈ vars, v.Resolved
  steps : ∀ steps ∈ p.steps, ∀ s ∈ steps, s.Resolved

theorem Step.resolved_simple (s : SimpleStep) : (Step.simple s).Resolved :=
  List.forall_mem_singleton.mpr rfl

theorem Step.resolved_group (name : String) (steps : List SimpleStep) :
    (Step.group name steps).Resolved := by
  refine List.forall_mem_cons.mpr ⟨rfl, ?_⟩
  intro t ht
  obtain ⟨s, -, rfl⟩ := List.mem_map.mp ht
  rfl

/-! ### What templates and groups may hold -/

section Simple

variable {c c' : Yaml.Cursor}

/-- Readers that never return a value do not return it. -/
theorem run_eq_ok_iff_of_yields {α β : Type} {r : Yaml.Reader α} {r' : Yaml.Reader β} {a : α} {b : β}
    (h : Yaml.Yields r (· ≠ a)) (h' : Yaml.Yields r' (· ≠ b)) :
    r.run.run c = (.ok a, c') ↔ r'.run.run c = (.ok b, c') :=
  ⟨fun hrun => absurd rfl (h c a c' hrun), fun hrun => absurd rfl (h' c b c' hrun)⟩

/-- Where templates and groups may not be, the steps that stand for themselves are read, and no others. -/
theorem run_readSimpleStep_eq_ok {s : SimpleStep} :
    readSimpleStep.run.run c = (.ok s, c') ↔ readStep.run.run c = (.ok (.simple s), c') := by
  rw [readSimpleStep, readStep]
  refine Yaml.run_bind_congr fun _ _ => Yaml.run_bind_congr fun first c₁ => ?_
  cases simpleStep? first with
  | some rest => exact (Yaml.run_map_eq_ok fun _ _ => Step.simple.inj).symm
  | none =>
      dsimp only
      split
      · refine run_eq_ok_iff_of_yields (Yaml.yields_failAt _ _ _) ?_
        exact Yaml.yields_bind_of_forall fun _ => Yaml.yields_bind_of_forall fun _ =>
          Yaml.yields_pure nofun
      · refine run_eq_ok_iff_of_yields (Yaml.yields_failAt _ _ _) ?_
        exact Yaml.yields_bind_of_forall fun _ => Yaml.yields_bind_of_forall fun _ =>
          Yaml.yields_pure nofun
      · exact run_eq_ok_iff_of_yields (Yaml.yields_failAt _ _ _) (Yaml.yields_failAt _ _ _)

/-- A template of variables holds the variables that are no templates. -/
theorem run_readSimpleVariable_eq_ok {v : ValueVariable} :
    readSimpleVariable.run.run c = (.ok v, c') ↔ readVariable.run.run c = (.ok (.value v), c') := by
  rw [readSimpleVariable, readVariable]
  refine Yaml.run_bind_congr fun _ _ => Yaml.run_bind_congr fun first c₁ => ?_
  split
  · exact (Yaml.run_map_eq_ok fun _ _ => Variable.value.inj).symm
  · refine run_eq_ok_iff_of_yields (Yaml.yields_failAt _ _ _) ?_
    exact Yaml.yields_bind_of_forall fun _ => Yaml.yields_bind_of_forall fun _ =>
      Yaml.yields_pure nofun
  · exact run_eq_ok_iff_of_yields (Yaml.yields_failAt _ _ _) (Yaml.yields_failAt _ _ _)

/-- A template of phases holds the phases that are no templates. -/
theorem run_readSimplePhase_eq_ok {p : Phase} :
    readSimplePhase.run.run c = (.ok p, c') ↔ readPhase.run.run c = (.ok (.phase p), c') := by
  rw [readSimplePhase, readPhase]
  refine Yaml.run_bind_congr fun _ _ => Yaml.run_bind_congr fun first c₁ => ?_
  split
  · exact (Yaml.run_map_eq_ok fun _ _ => PhaseEntry.phase.inj).symm
  · split
    · refine run_eq_ok_iff_of_yields (Yaml.yields_failAt _ _ _) ?_
      exact Yaml.yields_bind_of_forall fun _ => Yaml.yields_pure nofun
    · exact run_eq_ok_iff_of_yields (Yaml.yields_failAt _ _ _) (Yaml.yields_failAt _ _ _)

end Simple

/-! ### Overrides -/

/-- Where overrides take the place of groups, every step is one that was there or one of theirs. -/
theorem forall_mem_overrideSteps {P : Step → Prop} {o : Overrides} {steps : List Step}
    (hsteps : ∀ s ∈ steps, P s) (ho : ∀ e ∈ o, ∀ t ∈ e.2, P (.simple t)) :
    ∀ s ∈ overrideSteps o steps, P s := by
  intro s hs
  obtain ⟨t, ht, hst⟩ := List.mem_flatMap.mp hs
  have hkept : s = t → P s := fun h => h ▸ hsteps t ht
  cases t with
  | simple u => exact hkept (List.mem_singleton.mp hst)
  | template r => exact hkept (List.mem_singleton.mp hst)
  | group name inner =>
      rw [Step.override] at hst
      cases hfind : o.find? name with
      | none =>
          rw [hfind] at hst
          exact hkept (List.mem_singleton.mp hst)
      | some replacement =>
          rw [hfind] at hst
          obtain ⟨u, hu, rfl⟩ := List.mem_map.mp hst
          exact ho _ (Dictionary.mem_of_find?_eq_some hfind) u hu

/-- What holds of the steps of a list whose templates have been put in place. -/
def SplicedSteps (steps : List Step) : Prop := ∀ s ∈ steps, s.Sound ∧ s.Resolved

theorem splicedSteps_simple {steps : List SimpleStep} (h : SoundSteps steps) :
    SplicedSteps (steps.map .simple) :=
  List.forall_mem_map.mpr fun s hs => ⟨h s hs, Step.resolved_simple s⟩

theorem SplicedSteps.override {steps : List Step} (h : SplicedSteps steps) {o : Overrides}
    (ho : SoundOverrides o) : SplicedSteps (overrideSteps o steps) :=
  forall_mem_overrideSteps h fun e he t ht => ⟨ho.steps e he t ht, Step.resolved_simple t⟩

/-! ### Variables and steps -/

/-- What is loaded has what its reader gives it. -/
theorem yields_loadFile {α : Type} {read : Yaml.Reader α} {P : α → Prop} (h : Yaml.Yields read P)
    {x : Loader} {directory path : String} {handed : Option Parameters} :
    Yields (loadFile x directory path handed read) fun file => P file.document := by
  refine yields_bind_of_forall fun _ => ?_
  refine Yields.bind (P := P) (.inFile ?_ _) fun document hdocument => yields_pure hdocument
  refine yields_bind_of_forall fun _ => yields_bind_of_forall fun text =>
    yields_bind_of_forall fun _ => yields_ofExcept fun document hread => ?_
  exact of_readDocument h hread

variable {x : Loader} {directory : String}

theorem yields_resolveVariables {vars : List Variable} (h : ∀ v ∈ vars, v.Sound) :
    Yields (resolveVariables x directory vars) fun vars => ∀ v ∈ vars, v.Sound ∧ v.Resolved := by
  induction vars with
  | nil =>
      rw [resolveVariables]
      exact yields_pure (List.forall_mem_nil _)
  | cons v rest ih =>
      obtain ⟨hv, hrest⟩ := List.forall_mem_cons.mp h
      cases v with
      | value v =>
          refine (ih hrest).bind fun others hothers => yields_pure ?_
          exact List.forall_mem_cons.mpr ⟨⟨hv, trivial⟩, hothers⟩
      | template path parameters =>
          refine (yields_loadFile yields_readVariablesTemplate).bind fun file hfile => ?_
          refine (ih hrest).bind fun others hothers => yields_pure ?_
          have hown : ∀ v ∈ file.document.vars.map Variable.value, v.Sound ∧ v.Resolved :=
            List.forall_mem_map.mpr fun v hv => ⟨hfile v hv, trivial⟩
          exact List.forall_mem_append.mpr ⟨hown, hothers⟩

theorem yields_resolveSteps {steps : List Step} (h : ∀ s ∈ steps, s.Sound) :
    Yields (resolveSteps x directory steps) SplicedSteps := by
  induction steps with
  | nil =>
      rw [resolveSteps]
      exact yields_pure (List.forall_mem_nil _)
  | cons s rest ih =>
      obtain ⟨hs, hrest⟩ := List.forall_mem_cons.mp h
      cases s with
      | simple s =>
          refine (ih hrest).bind fun others hothers => yields_pure ?_
          exact List.forall_mem_cons.mpr ⟨⟨hs, Step.resolved_simple s⟩, hothers⟩
      | group name inner =>
          refine (ih hrest).bind fun others hothers => yields_pure ?_
          exact List.forall_mem_cons.mpr ⟨⟨hs, Step.resolved_group name inner⟩, hothers⟩
      | template r =>
          have hr : r.Sound := hs
          refine (yields_loadFile yields_readStepsTemplate).bind fun file hfile => ?_
          refine (ih hrest).bind fun others hothers => yields_pure ?_
          have hown := (splicedSteps_simple hfile).override hr.overrides
          exact List.forall_mem_append.mpr ⟨hown, hothers⟩

/-! ### Phases -/

/-- Whether a template of phases that is steps alone can be loaded. -/
def Loader.LoadsBarePhase (x : Loader) : Prop :=
  ∃ directory path handed j file j',
    (loadFile x directory path handed readPhasesTemplate).run.run j = (.ok file, j') ∧
      file.document.steps.isSome

/-- What holds of a phase whose templates have been put in place. It is sound but for its name: one that
was made of the steps of a template of phases has no name, and nothing but the steps. -/
structure Phase.Spliced (x : Loader) (p : Phase) : Prop where
  name : p.name ≠ some ""
  bare : p.name = none → x.LoadsBarePhase ∧ p = { steps := p.steps }
  properties : p.properties.Sound
  vars : ∀ v ∈ p.vars, v.Sound ∧ v.Resolved
  steps : SplicedSteps p.steps

theorem Phase.Spliced.resolved {p : Phase} (h : p.Spliced x) : p.Resolved :=
  ⟨fun v hv => (h.vars v hv).2, fun s hs => (h.steps s hs).2⟩

theorem Phase.Spliced.sound_iff {p : Phase} (h : p.Spliced x) : p.Sound ↔ p.name.isSome := by
  constructor
  · intro hsound
    obtain ⟨name, -, hname⟩ := hsound.name
    rw [hname]
    rfl
  · intro hsome
    obtain ⟨name, hname⟩ := Option.isSome_iff_exists.mp hsome
    have hne : name ≠ "" := by
      rintro rfl
      exact h.name hname
    exact ⟨⟨name, hne, hname⟩, h.properties, fun v hv => (h.vars v hv).1,
      fun s hs => (h.steps s hs).1⟩

/-- A phase that is made of steps. -/
theorem Phase.spliced_bare (hx : x.LoadsBarePhase) {steps : List Step} (h : SplicedSteps steps) :
    Phase.Spliced x { steps := steps } :=
  ⟨nofun, fun _ => ⟨hx, rfl⟩, Properties.sound_empty, nofun, h⟩

theorem Phase.Spliced.override {p : Phase} (h : p.Spliced x) {o : Overrides}
    (ho : SoundOverrides o) : (p.override o).Spliced x where
  name := h.name
  bare := fun hnone => (h.bare hnone).imp_right (congrArg fun q : Phase => q.override o)
  properties := h.properties
  vars := h.vars
  steps := h.steps.override ho

theorem Phase.Spliced.select {p : Phase} (h : p.Spliced x) {s : Selector} (hs : s.Sound) :
    (p.select s).Spliced x := by
  rw [Phase.select]
  split
  · exact h.override hs.overrides
  · exact h

/-- What a reference puts in the place of groups keeps a phase as it should be. -/
theorem PhasesReference.spliced_overridePhase {r : PhasesReference} (hr : r.Sound) {p : Phase}
    (h : p.Spliced x) : (r.overridePhase p).Spliced x := by
  have hselect : ∀ selectors : List Selector, (∀ s ∈ selectors, s.Sound) → ∀ q : Phase,
      q.Spliced x → (selectors.foldl (fun p s => p.select s) q).Spliced x := by
    intro selectors
    induction selectors with
    | nil => exact fun _ q hq => hq
    | cons s rest ih =>
        intro hsound q hq
        obtain ⟨hs, hrest⟩ := List.forall_mem_cons.mp hsound
        exact ih hrest _ (hq.select hs)
  exact (hselect r.selectors hr.selectors p h).override hr.overrides

theorem yields_resolvePhase {p : Phase} (h : p.Sound) :
    Yields (resolvePhase x directory p) (Phase.Spliced x) := by
  refine (yields_resolveVariables h.vars).bind fun vars hvars =>
    (yields_resolveSteps h.steps).bind fun steps hsteps => yields_pure ?_
  obtain ⟨name, hne, hname⟩ := h.name
  refine ⟨?_, ?_, h.properties, hvars, hsteps⟩
  · rw [hname]
    exact some_ne_some_empty hne
  · rw [hname]
    nofun

theorem yields_resolveAll {phases : List Phase} (h : ∀ p ∈ phases, p.Sound) :
    Yields (resolveAll x directory phases) fun phases => ∀ p ∈ phases, p.Spliced x := by
  induction phases with
  | nil =>
      rw [resolveAll]
      exact yields_pure (List.forall_mem_nil _)
  | cons p rest ih =>
      obtain ⟨hp, hrest⟩ := List.forall_mem_cons.mp h
      refine (yields_resolvePhase hp).bind fun q hq => (ih hrest).bind fun others hothers => ?_
      exact yields_pure (List.forall_mem_cons.mpr ⟨hq, hothers⟩)

/-- What holds of an entry of a list of phases whose templates have been put in place. -/
def PhaseEntry.Spliced (x : Loader) (e : PhaseEntry) : Prop := ∃ p, e = .phase p ∧ p.Spliced x

theorem PhaseEntry.Spliced.phase {p : Phase} (h : p.Spliced x) : (PhaseEntry.phase p).Spliced x :=
  ⟨p, rfl, h⟩

theorem yields_resolveReference {r : PhasesReference} (hr : r.Sound) :
    Yields (resolveReference x directory r) fun entries => ∀ e ∈ entries, e.Spliced x := by
  refine (yields_loadFile yields_readPhasesTemplate).and_run.bind
    fun file ⟨hfile, j, j', hrun⟩ => ?_
  -- A template has phases or steps; in either case there is nothing to resolve of the other.
  cases hsteps : file.document.steps with
  | some steps =>
      have hphases : file.document.phases = none :=
        hfile.exclusive.resolve_right (by rw [hsteps]; nofun)
      have hx : x.LoadsBarePhase := ⟨_, _, _, j, file, j', hrun, by rw [hsteps]; rfl⟩
      rw [hphases]
      refine (yields_resolveSteps (hfile.steps steps hsteps)).some.bind ?_
      rintro _ ⟨steps, rfl, hsteps⟩
      have hbare := Phase.spliced_bare hx (hsteps.override hr.overrides)
      exact yields_pure (List.forall_mem_singleton.mpr (.phase hbare))
  | none =>
      cases hphases : file.document.phases with
      | some phases =>
          refine (yields_resolveAll (hfile.phases phases hphases)).some.bind ?_
          rintro _ ⟨phases, rfl, hphases⟩
          refine yields_pure (List.forall_mem_map.mpr fun p hp => ?_)
          exact .phase (PhasesReference.spliced_overridePhase hr (hphases p hp))
      | none => exact yields_pure (List.forall_mem_nil _)

theorem yields_resolvePhases {entries : List PhaseEntry} (h : ∀ e ∈ entries, e.Sound) :
    Yields (resolvePhases x directory entries) fun entries => ∀ e ∈ entries, e.Spliced x := by
  induction entries with
  | nil =>
      rw [resolvePhases]
      exact yields_pure (List.forall_mem_nil _)
  | cons e rest ih =>
      obtain ⟨he, hrest⟩ := List.forall_mem_cons.mp h
      cases e with
      | phase p =>
          have hp : p.Sound := he
          refine (yields_resolvePhase hp).bind fun q hq => (ih hrest).bind fun others hothers => ?_
          exact yields_pure (List.forall_mem_cons.mpr ⟨.phase hq, hothers⟩)
      | template r =>
          have hr : r.Sound := he
          refine (yields_resolveReference hr).bind fun own hown =>
            (ih hrest).bind fun others hothers => ?_
          exact yields_pure (List.forall_mem_append.mpr ⟨hown, hothers⟩)

/-! ### Processes -/

/-- Merged resources are among those that were merged. -/
theorem forall_mem_mergeResources {P : Resource → Prop} {own added : List Resource}
    (hown : ∀ r ∈ own, P r) (hadded : ∀ r ∈ added, P r) :
    ∀ r ∈ mergeResources own added, P r := by
  rw [mergeResources]
  induction added generalizing own with
  | nil => exact hown
  | cons r rest ih =>
      obtain ⟨hr, hrest⟩ := List.forall_mem_cons.mp hadded
      rw [List.foldl_cons]
      refine ih ?_ hrest
      split
      · exact hown
      · exact List.forall_mem_append.mpr ⟨hown, List.forall_mem_singleton.mpr hr⟩

/-- What holds of a process whose templates have been put in place. It is sound but for names of
phases. -/
structure Spliced (x : Loader) (p : BuildProcess) : Prop where
  resources : ∀ rs ∈ p.resources, ∀ r ∈ rs, r.Sound
  template : p.template = none
  phases : ∀ entries ∈ p.phases, ∀ e ∈ entries, e.Spliced x
  properties : p.properties.Sound
  vars : ∀ vars ∈ p.vars, ∀ v ∈ vars, v.Sound ∧ v.Resolved
  steps : ∀ steps ∈ p.steps, SplicedSteps steps
  root : p.phases = none ∨ phaseKey? p = none

/-- **Nothing in a process whose templates have been put in place is taken from one.** -/
theorem Spliced.resolved {p : BuildProcess} (h : p.Spliced x) : p.Resolved where
  template := h.template
  phases := by
    intro entries hentries e he
    obtain ⟨q, rfl, hq⟩ := h.phases entries hentries e he
    exact hq.resolved
  vars := fun vars hvars v hv => (h.vars vars hvars v hv).2
  steps := fun steps hsteps s hs => (h.steps steps hsteps s hs).2

/-- The phases of a process are there themselves, and all of them have names. -/
def Named (p : BuildProcess) : Prop := ∀ entries ∈ p.phases, ∀ e ∈ entries, e.name?.isSome

instance (p : BuildProcess) : Decidable p.Named :=
  inferInstanceAs (Decidable (∀ entries ∈ p.phases, ∀ e ∈ entries, e.name?.isSome))

/-- **A process whose templates have been put in place is sound when its phases have names.** -/
theorem Spliced.sound_iff {p : BuildProcess} (h : p.Spliced x) : p.Sound ↔ p.Named := by
  constructor
  · intro hsound entries hentries e he
    obtain ⟨q, rfl, hq⟩ := h.phases entries hentries e he
    exact hq.sound_iff.mp (hsound.phases entries hentries _ he)
  · intro hnamed
    have hphases : ∀ entries ∈ p.phases, ∀ e ∈ entries, e.Sound := by
      intro entries hentries e he
      obtain ⟨q, rfl, hq⟩ := h.phases entries hentries e he
      exact hq.sound_iff.mpr (hnamed entries hentries _ he)
    have hroot : compositeKey? p = none ∨ phaseKey? p = none :=
      h.root.imp (fun hnone => compositeKey?_eq_none.mpr ⟨h.template, hnone⟩) id
    have htemplate : ∀ r ∈ p.template, r.Sound := by
      rw [h.template]
      nofun
    exact ⟨h.resources, htemplate, hphases, h.properties,
      fun vars hvars v hv => (h.vars vars hvars v hv).1,
      fun steps hsteps s hs => (h.steps steps hsteps s hs).1, .inl h.template, hroot⟩

/-- A phase without a name was made of the steps of a template of phases. -/
theorem Spliced.bare {p : BuildProcess} (h : p.Spliced x) {entries : List PhaseEntry}
    (hentries : p.phases = some entries) {q : Phase} (hq : PhaseEntry.phase q ∈ entries)
    (hname : q.name = none) : x.LoadsBarePhase ∧ q = { steps := q.steps } := by
  obtain ⟨_, ⟨⟩, hspliced⟩ := h.phases entries hentries _ hq
  exact hspliced.bare hname

/-- Where no template of phases is steps alone, all phases have names. -/
theorem Spliced.named {p : BuildProcess} (h : p.Spliced x) (hx : ¬ x.LoadsBarePhase) : p.Named := by
  intro entries hentries e he
  obtain ⟨q, rfl, -⟩ := h.phases entries hentries e he
  cases hname : q.name with
  | none => exact absurd (h.bare hentries he hname).1 hx
  | some name =>
      rw [PhaseEntry.name?, hname]
      rfl

/-- What resolution keeps of the root of a process. -/
structure Continues (p q : BuildProcess) : Prop where
  name : q.name = p.name
  properties : q.properties = p.properties
  steps : p.steps.isSome → q.steps.isSome

/-- What is at the root of a process that has a template or phases: nothing of one phase. -/
theorem Sound.root_of_composite {p : BuildProcess} (h : p.Sound)
    (hcomposite : p.template.isSome ∨ p.phases.isSome) :
    p.properties = {} ∧ p.vars = none ∧ p.steps = none := by
  rcases h.root with hnone | hnone
  · obtain ⟨htemplate, hphases⟩ := compositeKey?_eq_none.mp hnone
    rw [htemplate, hphases] at hcomposite
    rcases hcomposite with h | h <;> cases h
  · exact phaseKey?_eq_none.mp hnone

/-- A process that is made of a template. -/
theorem yields_resolve_template {p : BuildProcess} (h : p.Sound) {r : PhasesReference}
    (htemplate : p.template = some r) :
    Yields (resolve x directory p) fun q => q.Spliced x ∧ p.Continues q := by
  have hr := h.template r htemplate
  obtain ⟨hproperties, hvars, hsteps⟩ := h.root_of_composite (.inl (by rw [htemplate]; rfl))
  have hkept : ∀ q : BuildProcess, q.name = p.name → q.properties = p.properties →
      p.Continues q :=
    fun q hname hproperties => ⟨hname, hproperties, by rw [hsteps]; nofun⟩
  have hnovars : ∀ vars ∈ p.vars, ∀ v ∈ vars, v.Sound ∧ v.Resolved := by
    rw [hvars]
    nofun
  rw [resolve, htemplate]
  refine (yields_loadFile yields_readProcessTemplate).bind fun file hfile => ?_
  have hmerged := forall_mem_mergeResources (forall_mem_getD h.resources)
    (forall_mem_getD hfile.resources)
  have hresources := forall_mem_some (P := fun rs => ∀ r ∈ rs, Resource.Sound r) hmerged
  cases hphases : file.document.phases with
  | some phases =>
      have hsteps : file.document.steps = none :=
        hfile.exclusive.resolve_left (by rw [hphases]; nofun)
      simp only [hphases, hsteps]
      refine (yields_resolvePhases (hfile.phases phases hphases)).bind fun entries hentries => ?_
      have hplaced : ∀ e ∈ entries.map (·.mapPhase r.overridePhase), e.Spliced x := by
        refine List.forall_mem_map.mpr fun e he => ?_
        obtain ⟨q, rfl, hq⟩ := hentries e he
        exact .phase (PhasesReference.spliced_overridePhase hr hq)
      exact yields_pure ⟨⟨hresources, rfl, forall_mem_some hplaced, h.properties, hnovars, nofun,
        .inr (phaseKey?_eq_none.mpr ⟨hproperties, hvars, rfl⟩)⟩, hkept _ rfl rfl⟩
  | none =>
      cases hsteps : file.document.steps with
      | some steps =>
          simp only [hphases, hsteps]
          refine (yields_resolveSteps (hfile.steps steps hsteps)).bind fun steps hsteps => ?_
          exact yields_pure ⟨⟨hresources, rfl, nofun, h.properties, hnovars,
            forall_mem_some (hsteps.override hr.overrides), .inl rfl⟩, hkept _ rfl rfl⟩
      | none =>
          simp only [hphases, hsteps]
          exact yields_pure ⟨⟨hresources, rfl, nofun, h.properties, hnovars, nofun, .inl rfl⟩,
            hkept _ rfl rfl⟩

/-- A process that is made of phases. -/
theorem yields_resolve_phases {p : BuildProcess} (h : p.Sound) (htemplate : p.template = none)
    {phases : List PhaseEntry} (hphases : p.phases = some phases) :
    Yields (resolve x directory p) fun q => q.Spliced x ∧ p.Continues q := by
  obtain ⟨hproperties, hvars, hsteps⟩ := h.root_of_composite (.inr (by rw [hphases]; rfl))
  rw [resolve, htemplate, hphases]
  refine (yields_resolvePhases (h.phases phases hphases)).bind fun entries hentries => ?_
  refine yields_pure ⟨⟨h.resources, rfl, forall_mem_some hentries, h.properties, ?_, ?_,
    .inr (phaseKey?_eq_none.mpr ⟨hproperties, hvars, hsteps⟩)⟩, rfl, rfl, id⟩
  · intro vars hmem
    rw [hvars] at hmem
    cases hmem
  · intro steps hmem
    rw [hsteps] at hmem
    cases hmem

/-- A process that is one phase. -/
theorem yields_resolve_root {p : BuildProcess} (h : p.Sound) (htemplate : p.template = none)
    (hphases : p.phases = none) :
    Yields (resolve x directory p) fun q => q.Spliced x ∧ p.Continues q := by
  rw [resolve, htemplate, hphases]
  have hplaced : ∀ vars : Option (List Variable), (∀ vs ∈ vars, ∀ v ∈ vs, v.Sound ∧ v.Resolved) →
      ∀ steps : Option (List Step), (∀ ss ∈ steps, SplicedSteps ss) →
      (p.steps.isSome → steps.isSome) →
      let q := { p with template := none, phases := none, vars, steps }
      Spliced x q ∧ p.Continues q :=
    fun vars hvars steps hsteps hkept =>
      ⟨⟨h.resources, rfl, nofun, h.properties, hvars, hsteps, .inl rfl⟩, rfl, rfl, hkept⟩
  cases hvars : p.vars with
  | none =>
      cases hsteps : p.steps with
      | none => exact yields_pure (hplaced none nofun none nofun (by rw [hsteps]; exact id))
      | some steps =>
          refine (yields_resolveSteps (h.steps steps hsteps)).some.bind ?_
          rintro _ ⟨steps, rfl, hsteps⟩
          exact yields_pure (hplaced none nofun _ (forall_mem_some hsteps) fun _ => rfl)
  | some vars =>
      refine (yields_resolveVariables (h.vars vars hvars)).some.bind ?_
      rintro _ ⟨vars, rfl, hvars⟩
      cases hsteps : p.steps with
      | none =>
          exact yields_pure (hplaced _ (forall_mem_some hvars) none nofun (by rw [hsteps]; exact id))
      | some steps =>
          refine (yields_resolveSteps (h.steps steps hsteps)).some.bind ?_
          rintro _ ⟨steps, rfl, hsteps⟩
          exact yields_pure
            (hplaced _ (forall_mem_some hvars) _ (forall_mem_some hsteps) fun _ => rfl)

/-- **A process that has been resolved has its templates in place.** -/
theorem yields_resolve {p : BuildProcess} (h : p.Sound) :
    Yields (resolve x directory p) fun q => q.Spliced x ∧ p.Continues q := by
  cases htemplate : p.template with
  | some r => exact yields_resolve_template h htemplate
  | none =>
      cases hphases : p.phases with
      | some phases => exact yields_resolve_phases h htemplate hphases
      | none => exact yields_resolve_root h htemplate hphases

/-- **A process that has been loaded and resolved has its templates in place.** -/
theorem yields_loadResolved {path : String} {handed : Option Parameters} :
    Yields (loadResolved x directory path handed) fun loaded => loaded.2.Spliced x := by
  refine (yields_loadFile yields_read).bind fun file hfile => ?_
  exact (yields_resolve hfile).bind fun p hp => yields_pure hp.1

end PipelineExpansion.BuildProcess
