import PipelineExpansion.Proofs.BuildProcess.Resolution

/-!
# What is loaded

Once the templates of a process are in place, `load` makes three passes over it: steps at the root
become a phase, a checkout at the beginning of a phase becomes variables, and phases without a name get
one. Only the second can fail, and always with the same fault, so that the passes come down to one
function: `finished` is what is loaded, unless a checkout stands behind the first step of a phase
(`run_load`).

None of the passes brings a template back, and none looks into a group.

## Main results

* `resolved_of_load`: nothing in a process that has been loaded is taken from a template, and what was
  one phase at the root has become a phase.
* `load_of_loadResolved`: when a checkout is refused, and what becomes of the steps of phases otherwise.
-/

namespace PipelineExpansion.BuildProcess

open Template (Journal)
open Template.Journaled

/-! ### Checkouts -/

/-- Steps without a checkout at their beginning. -/
def behindCheckout : List Step → List Step
  | .simple (.checkout _) :: rest => rest
  | steps => steps

/-- The variables that a checkout at the beginning of steps stands for. -/
def checkoutVars : List Step → List Variable
  | .simple (.checkout c) :: _ => c.vars.map .value
  | _ => []

/-- A phase with variables in place of a checkout at its beginning. -/
def Phase.expanded (p : Phase) : Phase :=
  { p with vars := p.vars ++ checkoutVars p.steps, steps := behindCheckout p.steps }

/-- Whether a step other than the first is a checkout. -/
def Phase.strays (p : Phase) : Bool := p.steps.tail.any Step.isCheckout

/-- The fault of a checkout that is not the first step of a phase. -/
def strayCheckout : Diagnostic :=
  .meaning "Step 'checkout' is currently only supported as the first step within a phase."

/-- Steps begin with a checkout, or nothing in front of them is one. -/
theorem checkout_cases (steps : List Step) :
    (∃ c rest, steps = .simple (.checkout c) :: rest) ∨
      (behindCheckout steps = steps ∧ checkoutVars steps = [] ∧
        steps.any Step.isCheckout = steps.tail.any Step.isCheckout) := by
  rcases steps with _ | ⟨⟨⟨t⟩ | ⟨c⟩⟩ | ⟨name, inner⟩ | ⟨r⟩, rest⟩
  · exact .inr ⟨rfl, rfl, rfl⟩
  · exact .inr ⟨rfl, rfl, rfl⟩
  · exact .inl ⟨c, rest, rfl⟩
  · exact .inr ⟨rfl, rfl, rfl⟩
  · exact .inr ⟨rfl, rfl, rfl⟩

theorem mem_of_mem_behindCheckout {steps : List Step} {s : Step} (h : s ∈ behindCheckout steps) :
    s ∈ steps := by
  rcases checkout_cases steps with ⟨c, rest, rfl⟩ | ⟨hsteps, -, -⟩
  · exact List.mem_cons_of_mem _ h
  · rwa [hsteps] at h

/-- Behind a checkout at the beginning, a checkout is one that strays. -/
theorem any_behindCheckout (steps : List Step) :
    (behindCheckout steps).any Step.isCheckout = steps.tail.any Step.isCheckout := by
  rcases checkout_cases steps with ⟨c, rest, rfl⟩ | ⟨hsteps, -, hany⟩
  · rfl
  · rw [hsteps, hany]

/-- Expansion fails at a checkout that strays, and nowhere else. -/
theorem Phase.expandCheckout_eq (p : Phase) :
    p.expandCheckout = if p.strays then .error strayCheckout else .ok p.expanded := by
  have hpass : p.expandCheckout =
      if p.expanded.steps.any Step.isCheckout then .error strayCheckout else .ok p.expanded := by
    obtain ⟨name, properties, vars, steps⟩ := p
    rcases steps with _ | ⟨⟨⟨t⟩ | ⟨c⟩⟩ | ⟨name, inner⟩ | ⟨r⟩, rest⟩
    all_goals simp only [expandCheckout, expanded, behindCheckout, checkoutVars, List.append_nil]
    all_goals rfl
  have hstrays : p.expanded.steps.any Step.isCheckout = p.strays := any_behindCheckout p.steps
  rw [hpass, hstrays]

/-- Whether a phase among the entries has a checkout that strays. -/
def PhaseEntry.strays : PhaseEntry → Bool
  | .phase p => p.strays
  | .template _ => false

theorem PhaseEntry.expandCheckout_eq (e : PhaseEntry) :
    e.expandCheckout =
      if e.strays then .error strayCheckout else .ok (e.mapPhase Phase.expanded) := by
  cases e with
  | template r => rfl
  | phase p =>
      rw [expandCheckout, p.expandCheckout_eq, strays]
      split <;> rfl

/-! ### Names -/

/-- Phases are given names, and nothing else about them changes. -/
theorem exists_of_mem_namePhases {used : List String} {entries : List PhaseEntry} {e : PhaseEntry}
    (h : e ∈ namePhases used entries) :
    e ∈ entries ∨ ∃ p name, PhaseEntry.phase p ∈ entries ∧ e = .phase { p with name := name } := by
  induction entries generalizing used with
  | nil => exact .inl h
  | cons first rest ih =>
      have hrest : ∀ used, e ∈ namePhases used rest → e ∈ first :: rest ∨
          ∃ p name, PhaseEntry.phase p ∈ first :: rest ∧ e = .phase { p with name := name } := by
        intro used hmem
        rcases ih hmem with hmem | ⟨p, name, hp, rfl⟩
        · exact .inl (List.mem_cons_of_mem _ hmem)
        · exact .inr ⟨p, name, List.mem_cons_of_mem _ hp, rfl⟩
      cases first with
      | template r =>
          rcases List.mem_cons.mp h with rfl | hmem
          · exact .inl List.mem_cons_self
          · exact hrest used hmem
      | phase p =>
          rw [namePhases] at h
          split at h
          · rcases List.mem_cons.mp h with rfl | hmem
            · exact .inr ⟨p, _, List.mem_cons_self, rfl⟩
            · exact hrest _ hmem
          · rcases List.mem_cons.mp h with rfl | hmem
            · exact .inl List.mem_cons_self
            · exact hrest _ hmem

theorem exists_withNames_singleton (p : Phase) :
    ∃ name, withNames [.phase p] = [.phase { p with name := some name }] := by
  obtain ⟨name, properties, vars, steps⟩ := p
  rw [withNames, namePhases]
  split
  · exact ⟨_, rfl⟩
  · next hname =>
    cases name with
    | none => exact absurd rfl hname
    | some name => exact ⟨name, rfl⟩

/-! ### Processes -/

/-- The phases of a process; its steps at the root are one. -/
def allPhases (p : BuildProcess) : List PhaseEntry := (gatherPhase p).phases.getD []

/-- A process with its steps at the root in a phase, variables in place of checkouts, and names for its
phases. -/
def finished (p : BuildProcess) : BuildProcess :=
  { gatherPhase p with
    phases := some (withNames (p.allPhases.map (·.mapPhase Phase.expanded))) }

/-- Whether a phase of a process has a checkout that strays. -/
def strays (p : BuildProcess) : Bool := p.allPhases.any PhaseEntry.strays

/-- **What is loaded is the finished process**, unless a checkout strays. -/
theorem run_load {x : Loader} {directory path name : String} {handed : Option Parameters}
    {j j' : Journal} {p : BuildProcess}
    (h : (loadResolved x directory path handed).run.run j = (.ok (name, p), j')) :
    (load x directory path handed).run.run j =
      if p.strays then (.error strayCheckout, j')
      else (.ok p.finished, { j' with notes := j'.notes ++ ["Resolved process '" ++ name ++ "'"] }) := by
  rw [load, run_bind, h]
  simp only [mapM_of_eq_ite PhaseEntry.expandCheckout_eq]
  rw [run_bind, run_ofExcept, ← allPhases, strays]
  cases p.allPhases.any PhaseEntry.strays <;> rfl

theorem run_load_eq_ok {x : Loader} {directory path : String} {handed : Option Parameters}
    {j j' : Journal} {q : BuildProcess}
    (h : (load x directory path handed).run.run j = (.ok q, j')) :
    ∃ name p j₁, (loadResolved x directory path handed).run.run j = (.ok (name, p), j₁) ∧
      p.strays = false ∧ q = p.finished := by
  obtain ⟨⟨name, p⟩, j₁, hload, -⟩ := run_bind_eq_ok.mp h
  refine ⟨name, p, j₁, hload, ?_⟩
  rw [run_load hload] at h
  cases hstrays : p.strays with
  | true =>
      rw [hstrays, if_pos rfl] at h
      cases h
  | false =>
      rw [hstrays, if_neg Bool.false_ne_true] at h
      exact ⟨rfl, (Except.ok.inj (Prod.mk.inj h).1).symm⟩

@[simp] theorem gatherPhase_template (p : BuildProcess) : (gatherPhase p).template = p.template := by
  rw [gatherPhase]
  split <;> rfl

@[simp] theorem gatherPhase_steps (p : BuildProcess) : (gatherPhase p).steps = none := by
  rw [gatherPhase]
  split
  · next h => exact h
  · rfl

/-- Steps at the root become a phase with all that is said of it there. -/
theorem finished_of_steps {p : BuildProcess} {steps : List Step} (h : p.steps = some steps) :
    p.finished.properties = {} ∧ p.finished.vars = none ∧
      ∃ name, p.finished.phases = some [.phase {
        name := some name, properties := p.properties,
        vars := p.vars.getD [] ++ checkoutVars steps, steps := behindCheckout steps }] := by
  obtain ⟨name, hname⟩ :=
    exists_withNames_singleton (Phase.expanded ⟨p.name, p.properties, p.vars.getD [], steps⟩)
  rw [finished, allPhases, gatherPhase, h]
  exact ⟨rfl, rfl, name, congrArg some hname⟩

/-! ### Nothing is taken from a template -/

theorem Phase.Resolved.expanded {p : Phase} (h : p.Resolved) : p.expanded.Resolved := by
  refine ⟨List.forall_mem_append.mpr ⟨h.vars, ?_⟩, ?_⟩
  · intro v hv
    rcases checkout_cases p.steps with ⟨c, rest, hsteps⟩ | ⟨-, hvars, -⟩
    · rw [hsteps] at hv
      obtain ⟨value, -, rfl⟩ := List.mem_map.mp hv
      trivial
    · rw [hvars] at hv
      cases hv
  · exact fun s hs => h.steps s (mem_of_mem_behindCheckout hs)

theorem Resolved.allPhases {p : BuildProcess} (h : p.Resolved) : ∀ e ∈ p.allPhases, e.Resolved := by
  cases hsteps : p.steps with
  | some steps =>
      rw [BuildProcess.allPhases, gatherPhase, hsteps]
      exact List.forall_mem_singleton.mpr ⟨forall_mem_getD h.vars, h.steps steps hsteps⟩
  | none =>
      rw [BuildProcess.allPhases, gatherPhase, hsteps]
      exact forall_mem_getD h.phases

/-- Where the phases of a finished process come from. -/
theorem Resolved.exists_of_mem_finished {p : BuildProcess} (h : p.Resolved)
    {entries : List PhaseEntry} (hentries : p.finished.phases = some entries) {e : PhaseEntry}
    (he : e ∈ entries) :
    ∃ q name, PhaseEntry.phase q ∈ p.allPhases ∧ e = .phase { q.expanded with name := name } := by
  have hexpanded : ∀ e ∈ p.allPhases.map (·.mapPhase Phase.expanded),
      ∃ q, PhaseEntry.phase q ∈ p.allPhases ∧ e = .phase q.expanded := by
    refine List.forall_mem_map.mpr fun e he => ?_
    have hresolved := h.allPhases e he
    cases e with
    | phase q => exact ⟨q, he, rfl⟩
    | template r => exact hresolved.elim
  cases hentries
  rcases exists_of_mem_namePhases he with hmem | ⟨q', name, hq', rfl⟩
  · obtain ⟨q, hq, rfl⟩ := hexpanded e hmem
    exact ⟨q, q.name, hq, rfl⟩
  · obtain ⟨q, hq, heq⟩ := hexpanded _ hq'
    obtain rfl := PhaseEntry.phase.inj heq
    exact ⟨q, name, hq, rfl⟩

theorem Resolved.finished {p : BuildProcess} (h : p.Resolved) : p.finished.Resolved where
  template := p.gatherPhase_template.trans h.template
  phases := by
    intro entries hentries e he
    obtain ⟨q, name, hq, rfl⟩ := h.exists_of_mem_finished hentries he
    have hresolved : q.expanded.Resolved := (h.allPhases _ hq : q.Resolved).expanded
    exact ⟨hresolved.vars, hresolved.steps⟩
  vars := by
    intro vars hvars
    have hgathered : (gatherPhase p).vars = none ∨ (gatherPhase p).vars = p.vars := by
      rw [gatherPhase]
      split
      · exact .inr rfl
      · exact .inl rfl
    rcases hgathered with hnone | hkept
    · cases hnone.symm.trans hvars
    · exact h.vars vars (hkept.symm.trans hvars)
  steps := by
    intro steps hsteps
    cases p.gatherPhase_steps.symm.trans hsteps

/-- **A process that has been loaded is complete.** Nothing in it is taken from a template, and nothing of
one phase is left at the root where there were steps: these, the properties and the variables there are
those of its one phase. -/
theorem resolved_of_load {x : Loader} {directory path : String} {handed : Option Parameters}
    {j j' : Journal} {q : BuildProcess}
    (h : (load x directory path handed).run.run j = (.ok q, j')) :
    q.Resolved ∧ q.steps = none ∧
      ∃ file j₁ p j₂, (loadFile x directory path handed read).run.run j = (.ok file, j₁) ∧
        (resolve x file.directory file.document).run.run j₁ = (.ok p, j₂) ∧
        (file.document.steps.isSome → p.steps.isSome) ∧
        ∀ steps, p.steps = some steps → q.properties = {} ∧ q.vars = none ∧
          ∃ name, q.phases = some [.phase {
            name := some name, properties := file.document.properties,
            vars := p.vars.getD [] ++ checkoutVars steps, steps := behindCheckout steps }] := by
  obtain ⟨name, p, j₂, hload, -, rfl⟩ := run_load_eq_ok h
  have hresolved := (yields_loadResolved j _ j₂ hload).resolved
  refine ⟨hresolved.finished, p.gatherPhase_steps, ?_⟩
  obtain ⟨file, j₁, hfile, hload⟩ := run_bind_eq_ok.mp hload
  obtain ⟨_, _, hresolve, hpair⟩ := run_bind_eq_ok.mp hload
  cases hpair
  have hsound : file.document.Sound := yields_loadFile yields_read j file j₁ hfile
  obtain ⟨-, hkept⟩ := yields_resolve hsound j₁ p j₂ hresolve
  refine ⟨file, j₁, p, j₂, hfile, hresolve, hkept.steps, fun steps hsteps => ?_⟩
  rw [← hkept.properties]
  exact finished_of_steps hsteps

/-- Files of a process that is one phase, with templates of variables and of steps. -/
def rootFiles : Files := .inMemory
  [⟨none, "build.yml", "queue: a\nvariables:\n- template: vars.yml\nsteps:\n- checkout: none\n"
      ++ "- template: steps.yml\n"⟩,
   ⟨none, "vars.yml", "variables:\n  a: b\n"⟩,
   ⟨none, "steps.yml", "steps:\n- script: make\n"⟩]

theorem resolved_of_load_rootFiles :
    ∃ q j', (load ⟨rootFiles, {}⟩ "" "build.yml" none).run.run {} = (.ok q, j') ∧
      q.phases.map List.length = some 1 ∧ q.Resolved ∧ q.steps = none := by
  have hload : ((load ⟨rootFiles, {}⟩ "" "build.yml" none).run.run {}).1.toOption.any
      (fun q => decide (q.phases.map List.length = some 1)) = true := by
    decide +kernel
  generalize hrun : (load ⟨rootFiles, {}⟩ "" "build.yml" none).run.run {} = run at hload
  obtain ⟨_ | q, j'⟩ := run
  · cases hload
  · obtain ⟨hresolved, hsteps, -⟩ := resolved_of_load hrun
    exact ⟨q, j', rfl, of_decide_eq_true hload, hresolved, hsteps⟩

/-! ### Checkouts are refused -/

theorem strays_iff {p : BuildProcess} :
    p.strays = true ↔ ∃ q, PhaseEntry.phase q ∈ p.allPhases ∧ ∃ s ∈ q.steps.tail, s.isCheckout := by
  rw [strays, List.any_eq_true]
  constructor
  · rintro ⟨e, he, hstrays⟩
    cases e with
    | phase q => exact ⟨q, he, List.any_eq_true.mp hstrays⟩
    | template r => cases hstrays
  · rintro ⟨q, hq, hstrays⟩
    exact ⟨.phase q, hq, List.any_eq_true.mpr hstrays⟩

/-- **A checkout among the steps of a phase is refused, unless it is the first.** It is gone from the steps
of what is loaded, which are the steps of the phases but for that; groups among them stay as they are. -/
theorem load_of_loadResolved {x : Loader} {directory path name : String}
    {handed : Option Parameters} {j j' : Journal} {p : BuildProcess}
    (h : (loadResolved x directory path handed).run.run j = (.ok (name, p), j')) :
    ((∃ q, PhaseEntry.phase q ∈ p.allPhases ∧ ∃ s ∈ q.steps.tail, s.isCheckout) →
      (load x directory path handed).run.run j = (.error strayCheckout, j')) ∧
    ((¬ ∃ q, PhaseEntry.phase q ∈ p.allPhases ∧ ∃ s ∈ q.steps.tail, s.isCheckout) →
      ∃ r j₁, (load x directory path handed).run.run j = (.ok r, j₁) ∧
        ∀ entries ∈ r.phases, ∀ q', PhaseEntry.phase q' ∈ entries →
          (∀ s ∈ q'.steps, s.isCheckout = false) ∧
          ∃ q, PhaseEntry.phase q ∈ p.allPhases ∧ q'.steps = behindCheckout q.steps) := by
  rw [run_load h, ← strays_iff]
  constructor
  · exact fun hstrays => if_pos hstrays
  · intro hstrays
    refine ⟨p.finished, _, if_neg hstrays, fun entries hentries q' hq' => ?_⟩
    have hresolved := (yields_loadResolved j _ j' h).resolved
    obtain ⟨q, name, hq, heq⟩ := hresolved.exists_of_mem_finished hentries hq'
    obtain rfl := PhaseEntry.phase.inj heq
    refine ⟨fun s hs => Bool.eq_false_iff.mpr fun hcheckout => hstrays ?_, q, hq, rfl⟩
    have hany : (behindCheckout q.steps).any Step.isCheckout = true :=
      List.any_eq_true.mpr ⟨s, hs, hcheckout⟩
    rw [any_behindCheckout] at hany
    exact strays_iff.mpr ⟨q, hq, List.any_eq_true.mp hany⟩

/-- Files of a process with a checkout behind another step. -/
def strayFiles : Files := .inMemory
  [⟨none, "build.yml", "steps:\n- script: make\n- template: steps.yml\n"⟩,
   ⟨none, "steps.yml", "steps:\n- checkout: self\n"⟩]

theorem load_of_loadResolved_strayFiles :
    ∃ name p j', (loadResolved ⟨strayFiles, {}⟩ "" "build.yml" none).run.run {}
        = (.ok (name, p), j') ∧
      (load ⟨strayFiles, {}⟩ "" "build.yml" none).run.run {} = (.error strayCheckout, j') := by
  have hloaded : ((loadResolved ⟨strayFiles, {}⟩ "" "build.yml" none).run.run {}).1.toOption.any
      (fun loaded => loaded.2.strays) = true := by
    decide +kernel
  generalize hrun : (loadResolved ⟨strayFiles, {}⟩ "" "build.yml" none).run.run {} = run at hloaded
  obtain ⟨_ | ⟨name, p⟩, j'⟩ := run
  · cases hloaded
  · exact ⟨name, p, j', rfl, (load_of_loadResolved hrun).1 (strays_iff.mp hloaded)⟩

/-- Files of a process with a checkout in a group of steps. -/
def groupFiles : Files := .inMemory
  [⟨none, "build.yml", "steps:\n- script: make\n- group: g\n  steps:\n  - checkout: self\n"⟩]

/-- A checkout in a group is not refused, and it is there in what is loaded. -/
theorem groupFiles_keepCheckout :
    ¬ ∀ (x : Loader) (directory path name : String) (handed : Option Parameters) (j j' : Journal)
      (p : BuildProcess), (loadResolved x directory path handed).run.run j = (.ok (name, p), j') →
      (∀ r j₁, (load x directory path handed).run.run j = (.ok r, j₁) →
        ∀ entries ∈ r.phases, ∀ q, PhaseEntry.phase q ∈ entries →
          ∀ s ∈ q.steps, ∀ t ∈ s.parts, t.isCheckout = false) ∧
      ((∃ q, PhaseEntry.phase q ∈ p.allPhases ∧
        ∃ s ∈ behindCheckout q.steps, ∃ t ∈ s.parts, t.isCheckout) →
        ∃ d j₁, (load x directory path handed).run.run j = (.error d, j₁)) := by
  have hheld : ((load ⟨groupFiles, {}⟩ "" "build.yml" none).run.run {}).1.toOption.any
      (fun r => (r.phases.getD []).any fun
        | .phase q => q.steps.any fun s => s.parts.any Step.isCheckout
        | .template _ => false) = true := by
    decide +kernel
  generalize hrun : (load ⟨groupFiles, {}⟩ "" "build.yml" none).run.run {} = run at hheld
  intro hclaim
  obtain ⟨_ | r, j₁⟩ := run
  · cases hheld
  · obtain ⟨name, p, j', hload, -⟩ := run_load_eq_ok hrun
    obtain ⟨hnone, -⟩ := hclaim _ _ _ _ _ _ _ _ hload
    obtain ⟨e, he, hany⟩ := List.any_eq_true.mp hheld
    cases e with
    | template t => cases hany
    | phase q =>
        obtain ⟨s, hs, hparts⟩ := List.any_eq_true.mp hany
        obtain ⟨t, ht, hcheckout⟩ := List.any_eq_true.mp hparts
        cases hphases : r.phases with
        | none =>
            rw [hphases] at he
            cases he
        | some entries =>
            rw [hphases] at he
            rw [hnone r j₁ hrun entries hphases q he s hs t ht] at hcheckout
            cases hcheckout

end PipelineExpansion.BuildProcess
