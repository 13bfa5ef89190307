import PipelineExpansion.BuildProcess.Load
import PipelineExpansion.Proofs.BuildProcess.Phase
import PipelineExpansion.Proofs.Outcome

/-!
# Documents are stable

A document that has been read and is written is read back as its normal form, which is written as
the same document again. So writing settles after once, whatever shape the document had at first.

## Main results

* `yields_read`, `takes_read`, `toTree_normal`: the three parts of this for processes; the
  templates have the same.
* `Kind.stable`: documents of every kind are stable.
-/

namespace PipelineExpansion.BuildProcess

open Yaml

variable {α : Type}

/-! ### Resources -/

/-- What holds of every resource that has been read. -/
structure Resource.Sound (r : Resource) : Prop where
  name : r.name ≠ ""
  type : r.type ≠ some ""
  data : ∀ data ∈ r.data, (Graph.mapping data).Fits (Reader.levelsAt 1)

theorem yields_readResource : Yields readResource Resource.Sound := by
  refine yields_bind_of_forall fun _ => yields_bind_of_forall fun _ =>
    yields_nonEmpty.bind fun name hname => ?_
  refine yields_untilEnd ⟨hname, nofun, nofun⟩ fun r h => yields_bind_of_forall fun key => ?_
  split
  · exact yields_nonEmpty.bind fun s hs => yields_pure { h with type := some_ne_some_empty hs }
  · refine (yields_mapping 1).bind fun data hdata => yields_pure { h with data := ?_ }
    rintro _ ⟨⟩
    exact hdata
  · exact yields_failAt _ _ _

/-- The entries of a resource behind its name. -/
def Resource.entries (r : Resource) : List (String × Tree) :=
  textEntry "type" r.type ++ treeEntry "data" (fun data => .ofGraph (.mapping data)) r.data

theorem takes_resource {r : Resource} (h : r.Sound) : Takes readResource r.toTree.events r := by
  obtain ⟨name, type, data⟩ := r
  have hkeys : (Tree.keys ([("name", .text name)] ++ textEntry "type" type
      ++ treeEntry "data" (fun data => .ofGraph (.mapping data)) data)).Nodup := by
    refine List.Nodup.sublist ?_ (by decide : (["name"] ++ ["type"] ++ ["data"]).Nodup)
    simp only [Tree.keys_append]
    exact ((List.Sublist.refl _).append (keys_textEntry _ _)).append (keys_treeEntry _ _ _)
  have hentries : Entries Resource.property { name := name } (Resource.mk name type data).entries
      (Resource.mk name type (data.map id)) := by
    refine (entries_nonEmpty (fun v => Resource.mk name v none) h.type ?_).append
      (entries_treeEntry (fun v => Resource.mk name type v) fun d hd => ?_)
    · exact fun key hkey => by simp only [hkey]
    · have htake := (takes_graphMapping (h.data d hd)).map fun v => Resource.mk name type (some v)
      exact takes_key htake fun key hkey => by simp only [hkey]
  rw [Option.map_id] at hentries
  rw [Resource.toTree, Tree.ofEntries_of_nodup hkeys]
  exact takes_expect_bind rfl fun _ =>
    takes_exact_bind ((takes_nonEmpty h.name).bind (takes_entries hentries))

theorem yields_readResources : Yields readResources fun rs => ∀ r ∈ rs, r.Sound :=
  yields_sequenceOf yields_readResource

theorem takes_resources {rs : List Resource} (h : ∀ r ∈ rs, r.Sound) :
    Takes readResources (resourcesTree rs).events rs :=
  takes_sequenceOf_self fun r hr => takes_resource (h r hr)

/-! ### Processes -/

theorem yields_readTemplateReference : Yields readTemplateReference PhasesReference.Sound :=
  yields_bind_of_forall fun _ => yields_bind_of_forall fun _ => yields_readPhasesReference

theorem takes_templateReference {r : PhasesReference} (h : r.Sound) :
    Takes readTemplateReference (templateReferenceTree r).events r.normal := by
  have hkeys : (Tree.keys ([("name", .text r.path)] ++ r.bodyEntries)).Nodup := by
    refine List.Nodup.sublist ?_
      (by decide : (["name"] ++ (["parameters"] ++ ["phases"] ++ ["steps"])).Nodup)
    rw [Tree.keys_append]
    exact (List.Sublist.refl _).append (keys_bodyEntries r)
  rw [templateReferenceTree, Tree.ofEntries_of_nodup hkeys]
  exact takes_expect_bind rfl fun _ => takes_exact_bind (takes_phasesReference h)

@[simp] theorem templateReferenceTree_normal (r : PhasesReference) :
    templateReferenceTree r.normal = templateReferenceTree r := by
  rw [templateReferenceTree, r.bodyEntries_normal]
  rfl

/-- A process has nothing of one phase at the root. -/
theorem phaseKey?_eq_none {p : BuildProcess} :
    phaseKey? p = none ↔ p.properties = {} ∧ p.vars = none ∧ p.steps = none := by
  obtain ⟨name, resources, template, phases, ⟨dependsOn, condition, coe, access, target⟩, vars,
    steps⟩ := p
  cases vars <;> cases steps <;> cases dependsOn <;> cases condition <;> cases coe <;>
    cases access <;> cases target <;> simp [phaseKey?]

theorem compositeKey?_eq_none {p : BuildProcess} :
    compositeKey? p = none ↔ p.template = none ∧ p.phases = none := by
  rcases p with ⟨_, _, _ | _, _ | _, _, _, _⟩ <;> simp [compositeKey?]

/-- What holds of every process that has been read. What a process may be made of excludes each
other. -/
structure Sound (p : BuildProcess) : Prop where
  resources : ∀ rs ∈ p.resources, ∀ r ∈ rs, r.Sound
  template : ∀ r ∈ p.template, r.Sound
  phases : ∀ entries ∈ p.phases, ∀ e ∈ entries, e.Sound
  properties : p.properties.Sound
  vars : ∀ vars ∈ p.vars, ∀ v ∈ vars, v.Sound
  steps : ∀ steps ∈ p.steps, ∀ s ∈ steps, s.Sound
  exclusive : p.template = none ∨ p.phases = none
  root : compositeKey? p = none ∨ phaseKey? p = none

/-- What is read back of a process. -/
def normal (p : BuildProcess) : BuildProcess where
  name := filled p.name
  resources := p.resources
  template := p.template.map PhasesReference.normal
  phases := p.phases.map (List.map PhaseEntry.normal)
  properties := p.properties
  vars := p.vars.map normalVariables
  steps := p.steps.map (List.map Step.normal)

theorem yields_refuseBeside (present : Option String) (key : Scalar) :
    Yields (refuseBeside present key) fun _ => present = none := by
  refine (yields_refuseAfter _ _ _ _).imp fun _ h => ?_
  exact Option.isNone_iff_eq_none.mp (Option.isSome_eq_false_iff.mp h)

theorem yields_property {p : BuildProcess} (h : p.Sound) : Yields (property p) Sound := by
  refine yields_bind_of_forall fun key => ?_
  split
  · exact yields_bind_of_forall fun s => yields_pure { h with }
  · exact yields_readResources.bind fun rs hrs =>
      yields_pure { h with resources := forall_mem_some hrs }
  · refine (yields_refuseBeside _ _).bind fun _ hphases =>
      (yields_refuseBeside _ _).bind fun _ hroot => ?_
    refine yields_readTemplateReference.bind fun r hr => yields_pure ?_
    have hnone : p.phases = none := Option.map_eq_none_iff.mp hphases
    exact { h with template := forall_mem_some hr, exclusive := .inr hnone, root := .inr hroot }
  · refine (yields_refuseBeside _ _).bind fun _ htemplate =>
      (yields_refuseBeside _ _).bind fun _ hroot => ?_
    refine yields_readPhases.bind fun entries hentries => yields_pure ?_
    have hnone : p.template = none := Option.map_eq_none_iff.mp htemplate
    exact { h with phases := forall_mem_some hentries, exclusive := .inl hnone, root := .inr hroot }
  · refine (yields_refuseBeside _ _).bind fun _ hcomposite => ?_
    exact yields_readVariables.bind fun vars hvars =>
      yields_pure { h with vars := forall_mem_some hvars, root := .inl hcomposite }
  · refine (yields_refuseBeside _ _).bind fun _ hcomposite => ?_
    exact yields_readSteps.bind fun steps hsteps =>
      yields_pure { h with steps := forall_mem_some hsteps, root := .inl hcomposite }
  · refine (yields_refuseBeside _ _).bind fun _ hcomposite => ?_
    refine (p.properties.yields_read? h.properties key).bind fun result hresult => ?_
    cases result with
    | some properties =>
        exact yields_pure { h with properties := hresult properties rfl, root := .inl hcomposite }
    | none => exact yields_failAt _ _ _

/-- **Every process that has been read is sound.** -/
theorem yields_read : Yields read Sound := by
  refine yields_mappingOf ?_ fun p h => yields_property h
  exact ⟨nofun, nofun, nofun, Properties.sound_empty, nofun, nofun, .inl rfl, .inl rfl⟩

/-- The entries of a process. -/
def entries (p : BuildProcess) : List (String × Tree) :=
  filledEntry "name" p.name ++ treeEntry "resources" resourcesTree p.resources
    ++ treeEntry "template" templateReferenceTree p.template
    ++ treeEntry "phases" phasesTree p.phases
    ++ p.properties.toEntries ++ treeEntry "variables" variablesTree p.vars
    ++ treeEntry "steps" stepsTree p.steps

theorem nodup_entries (p : BuildProcess) : (Tree.keys p.entries).Nodup := by
  refine List.Nodup.sublist ?_
    (by decide : (["name"] ++ ["resources"] ++ ["template"] ++ ["phases"]
    ++ Properties.keywords ++ ["variables"] ++ ["steps"]).Nodup)
  simp only [entries, Tree.keys_append]
  have hfront := (((keys_filledEntry "name" p.name).append
    (keys_treeEntry "resources" resourcesTree p.resources)).append
    (keys_treeEntry "template" templateReferenceTree p.template)).append
    (keys_treeEntry "phases" phasesTree p.phases)
  exact ((hfront.append (keys_properties _)).append (keys_treeEntry _ _ _)).append
    (keys_treeEntry _ _ _)

/-- One phase at the root: nothing that excludes it is there. -/
theorem entries_root {p : BuildProcess} (h : p.Sound) (name : Option String)
    (resources : Option (List Resource)) :
    Entries property { name, resources }
      (p.properties.toEntries ++ treeEntry "variables" variablesTree p.vars
        ++ treeEntry "steps" stepsTree p.steps)
      { name, resources, properties := p.properties, vars := p.vars.map normalVariables,
        steps := p.steps.map (List.map Step.normal) } := by
  let p₁ : BuildProcess := { name, resources, properties := p.properties }
  let p₂ : BuildProcess := { p₁ with vars := p.vars.map normalVariables }
  have hproperties : Entries property { name, resources } p.properties.toEntries p₁ := by
    refine entries_properties (fun v => { p₁ with properties := v }) h.properties ?_
    intro q key hkey
    simp only [Properties.keywords, List.mem_cons, List.not_mem_nil, or_false] at hkey
    rcases hkey with h | h | h | h | h | h | h
    all_goals
      simp only [h]
      exact ⟨_, rfl, fun _ => rfl⟩
  have hvars : Entries property p₁ (treeEntry "variables" variablesTree p.vars) p₂ := by
    refine entries_treeEntry (fun v => { p₁ with vars := v }) fun vars hvars => ?_
    have htake := (takes_variables (h.vars vars hvars)).map fun v => { p₁ with vars := some v }
    exact takes_key htake fun key hkey => by simp only [hkey]; rfl
  have hsteps : Entries property p₂ (treeEntry "steps" stepsTree p.steps)
      { p₂ with steps := p.steps.map (List.map Step.normal) } := by
    refine entries_treeEntry (fun v => { p₂ with steps := v }) fun steps hsteps => ?_
    have htake := (takes_steps (h.steps steps hsteps)).map fun v => { p₂ with steps := some v }
    exact takes_key htake fun key hkey => by simp only [hkey]; rfl
  exact (hproperties.append hvars).append hsteps

/-- What stands in front: of a template and phases there is one at most. -/
theorem entries_front {p : BuildProcess} (h : p.Sound) :
    Entries property {}
      (filledEntry "name" p.name ++ treeEntry "resources" resourcesTree p.resources
        ++ treeEntry "template" templateReferenceTree p.template
        ++ treeEntry "phases" phasesTree p.phases)
      { name := filled p.name, resources := p.resources,
        template := p.template.map PhasesReference.normal,
        phases := p.phases.map (List.map PhaseEntry.normal) } := by
  let p₁ : BuildProcess := { name := filled p.name }
  let p₂ : BuildProcess := { p₁ with resources := p.resources }
  let p₃ : BuildProcess := { p₂ with template := p.template.map PhasesReference.normal }
  have hname : Entries property {} (filledEntry "name" p.name) p₁ :=
    entries_scalar (fun v => ({ name := v } : BuildProcess)) (filled p.name)
      fun key hkey => by simp only [hkey]
  have hresources : Entries property p₁ (treeEntry "resources" resourcesTree p.resources)
      { p₁ with resources := p.resources.map id } := by
    refine entries_treeEntry (fun v => { p₁ with resources := v }) fun rs hrs => ?_
    have htake := (takes_resources (h.resources rs hrs)).map fun v =>
      { p₁ with resources := some v }
    exact takes_key htake fun key hkey => by simp only [hkey]
  rw [Option.map_id] at hresources
  have htemplate : Entries property p₂ (treeEntry "template" templateReferenceTree p.template)
      p₃ := by
    refine entries_treeEntry (fun v => { p₂ with template := v }) fun r hr => ?_
    have htake := (takes_templateReference (h.template r hr)).map fun v =>
      { p₂ with template := some v }
    exact takes_key htake fun key hkey => by simp only [hkey]; rfl
  have hphases : Entries property p₃ (treeEntry "phases" phasesTree p.phases)
      { p₃ with phases := p.phases.map (List.map PhaseEntry.normal) } := by
    refine entries_treeEntry (fun v => { p₃ with phases := v }) fun phases hphases => ?_
    have hnone : p.template = none := h.exclusive.resolve_right (hphases ▸ nofun)
    simp only [p₃, hnone, Option.map_none]
    have htake := (takes_phases (h.phases phases hphases)).map fun v =>
      { p₂ with template := none, phases := some v }
    exact takes_key htake fun key hkey => by simp only [hkey]; rfl
  exact ((hname.append hresources).append htemplate).append hphases

theorem entries_process {p : BuildProcess} (h : p.Sound) :
    Entries property {} p.entries p.normal := by
  have hfront := entries_front h
  rcases h.root with hcomposite | hphase
  · obtain ⟨htemplate, hphases⟩ := compositeKey?_eq_none.mp hcomposite
    have hroot := entries_root h (filled p.name) p.resources
    rw [htemplate, hphases] at hfront
    rw [entries, normal, htemplate, hphases, List.append_assoc _ p.properties.toEntries,
      List.append_assoc]
    exact hfront.append hroot
  · obtain ⟨hproperties, hvars, hsteps⟩ := phaseKey?_eq_none.mp hphase
    rw [entries, normal, hproperties, hvars, hsteps]
    exact ((hfront.append (.nil _)).append (.nil _)).append (.nil _)

/-- **What a process is written as is read as its normal form.** -/
theorem takes_read {p : BuildProcess} (h : p.Sound) : Takes read p.toTree.events p.normal :=
  takes_mappingOf p.nodup_entries (entries_process h)

/-- **A process and its normal form are written alike.** -/
theorem toTree_normal (p : BuildProcess) : p.normal.toTree = p.toTree := by
  simp only [toTree, normal, filledEntry_filled, treeEntry_map templateReferenceTree_normal,
    treeEntry_map phasesTree_normal, treeEntry_map variablesTree_normal,
    treeEntry_map stepsTree_normal]

/-! ### Templates of processes -/

/-- What holds of every template of a process that has been read. -/
structure ProcessTemplate.Sound (t : ProcessTemplate) : Prop where
  resources : ∀ rs ∈ t.resources, ∀ r ∈ rs, r.Sound
  phases : ∀ entries ∈ t.phases, ∀ e ∈ entries, e.Sound
  steps : ∀ steps ∈ t.steps, ∀ s ∈ steps, s.Sound
  exclusive : t.phases = none ∨ t.steps = none

/-- What is read back of a template of a process. -/
def ProcessTemplate.normal (t : ProcessTemplate) : ProcessTemplate where
  resources := t.resources
  phases := t.phases.map (List.map PhaseEntry.normal)
  steps := t.steps.map (List.map Step.normal)

theorem yields_readProcessTemplate : Yields readProcessTemplate ProcessTemplate.Sound := by
  refine yields_mappingOf ⟨nofun, nofun, nofun, .inl rfl⟩ fun t h =>
    yields_bind_of_forall fun key => ?_
  split
  · exact yields_readResources.bind fun rs hrs =>
      yields_pure { h with resources := forall_mem_some hrs }
  · refine (yields_refuseBeside _ _).bind fun _ hsteps =>
      yields_readPhases.bind fun entries hentries => ?_
    have hnone : t.steps = none := Option.map_eq_none_iff.mp hsteps
    exact yields_pure { h with phases := forall_mem_some hentries, exclusive := .inr hnone }
  · refine (yields_refuseBeside _ _).bind fun _ hphases =>
      yields_readSteps.bind fun steps hsteps => ?_
    have hnone : t.phases = none := Option.map_eq_none_iff.mp hphases
    exact yields_pure { h with steps := forall_mem_some hsteps, exclusive := .inl hnone }
  · exact yields_failAt _ _ _

theorem takes_readProcessTemplate {t : ProcessTemplate} (h : t.Sound) :
    Takes readProcessTemplate t.toTree.events t.normal := by
  have hkeys : (Tree.keys (treeEntry "resources" resourcesTree t.resources
      ++ treeEntry "phases" phasesTree t.phases
      ++ treeEntry "steps" stepsTree t.steps)).Nodup := by
    refine List.Nodup.sublist ?_ (by decide : (["resources"] ++ ["phases"] ++ ["steps"]).Nodup)
    simp only [Tree.keys_append]
    exact ((keys_treeEntry _ _ _).append (keys_treeEntry _ _ _)).append (keys_treeEntry _ _ _)
  have hresources : Entries ProcessTemplate.property {}
      (treeEntry "resources" resourcesTree t.resources)
      { resources := t.resources.map id } := by
    refine entries_treeEntry (fun v => ProcessTemplate.mk v none none) fun rs hrs => ?_
    refine takes_key ((takes_resources (h.resources rs hrs)).map fun v =>
      ProcessTemplate.mk (some v) none none) ?_
    exact fun key hkey => by simp only [hkey]
  rw [Option.map_id] at hresources
  let t₁ : ProcessTemplate := { resources := t.resources }
  let t₂ : ProcessTemplate := { t₁ with phases := t.phases.map (List.map PhaseEntry.normal) }
  have hphases : Entries ProcessTemplate.property t₁ (treeEntry "phases" phasesTree t.phases)
      t₂ := by
    refine entries_treeEntry (fun v => { t₁ with phases := v }) fun phases hphases => ?_
    have htake := (takes_phases (h.phases phases hphases)).map fun v =>
      { t₁ with phases := some v }
    exact takes_key htake fun key hkey => by simp only [hkey]; rfl
  have hsteps : Entries ProcessTemplate.property t₂ (treeEntry "steps" stepsTree t.steps)
      t.normal := by
    refine entries_treeEntry (fun v => { t₂ with steps := v }) fun steps hsteps => ?_
    have hnone : t.phases = none := h.exclusive.resolve_right (hsteps ▸ nofun)
    simp only [t₂, hnone, Option.map_none]
    have htake := (takes_steps (h.steps steps hsteps)).map fun v =>
      { t₁ with phases := none, steps := some v }
    exact takes_key htake fun key hkey => by simp only [hkey]; rfl
  exact takes_mappingOf hkeys ((hresources.append hphases).append hsteps)

@[simp] theorem ProcessTemplate.toTree_normal (t : ProcessTemplate) :
    t.normal.toTree = t.toTree := by
  simp only [toTree, normal, treeEntry_map phasesTree_normal, treeEntry_map stepsTree_normal]

/-! ### Templates of phases -/

/-- What holds of every template of phases that has been read. -/
structure PhasesTemplate.Sound (t : PhasesTemplate) : Prop where
  phases : ∀ phases ∈ t.phases, ∀ p ∈ phases, p.Sound
  steps : ∀ steps ∈ t.steps, ∀ s ∈ steps, s.Sound
  exclusive : t.phases = none ∨ t.steps = none

/-- What is read back of a template of phases. -/
def PhasesTemplate.normal (t : PhasesTemplate) : PhasesTemplate where
  phases := t.phases.map (List.map Phase.normal)
  steps := t.steps.map (List.map Step.normal)

theorem yields_readPhasesTemplate : Yields readPhasesTemplate PhasesTemplate.Sound := by
  refine yields_mappingOf ⟨nofun, nofun, .inl rfl⟩ fun t h => yields_bind_of_forall fun key => ?_
  split
  · refine (yields_refuseBeside _ _).bind fun _ hsteps =>
      yields_readSimplePhases.bind fun phases hphases => ?_
    have hnone : t.steps = none := Option.map_eq_none_iff.mp hsteps
    exact yields_pure { h with phases := forall_mem_some hphases, exclusive := .inr hnone }
  · refine (yields_refuseBeside _ _).bind fun _ hphases =>
      yields_readSteps.bind fun steps hsteps => ?_
    have hnone : t.phases = none := Option.map_eq_none_iff.mp hphases
    exact yields_pure { h with steps := forall_mem_some hsteps, exclusive := .inl hnone }
  · exact yields_failAt _ _ _

theorem takes_readPhasesTemplate {t : PhasesTemplate} (h : t.Sound) :
    Takes readPhasesTemplate t.toTree.events t.normal := by
  have hkeys : (Tree.keys (treeEntry "phases"
        (fun phases : List Phase => phasesTree (phases.map .phase)) t.phases
      ++ treeEntry "steps" stepsTree t.steps)).Nodup := by
    refine List.Nodup.sublist ?_ (by decide : (["phases"] ++ ["steps"]).Nodup)
    rw [Tree.keys_append]
    exact (keys_treeEntry _ _ _).append (keys_treeEntry _ _ _)
  let t₁ : PhasesTemplate := { phases := t.phases.map (List.map Phase.normal) }
  have hphases : Entries PhasesTemplate.property {}
      (treeEntry "phases" (fun phases : List Phase => phasesTree (phases.map .phase)) t.phases)
      t₁ := by
    refine entries_treeEntry (fun v => PhasesTemplate.mk v none) fun phases hphases => ?_
    have htake := (takes_simplePhases (h.phases phases hphases)).map fun v =>
      PhasesTemplate.mk (some v) none
    exact takes_key htake fun key hkey => by simp only [hkey]; rfl
  have hsteps : Entries PhasesTemplate.property t₁ (treeEntry "steps" stepsTree t.steps)
      t.normal := by
    refine entries_treeEntry (fun v => { t₁ with steps := v }) fun steps hsteps => ?_
    have hnone : t.phases = none := h.exclusive.resolve_right (hsteps ▸ nofun)
    simp only [t₁, hnone, Option.map_none]
    have htake := (takes_steps (h.steps steps hsteps)).map fun v => PhasesTemplate.mk none (some v)
    exact takes_key htake fun key hkey => by simp only [hkey]; rfl
  exact takes_mappingOf hkeys (hphases.append hsteps)

@[simp] theorem PhasesTemplate.toTree_normal (t : PhasesTemplate) :
    t.normal.toTree = t.toTree := by
  have hphases : ∀ phases : List Phase, phasesTree ((phases.map Phase.normal).map .phase)
      = phasesTree (phases.map .phase) := by
    intro phases
    simp [phasesTree, PhaseEntry.toTree, Function.comp_def]
  rw [toTree, toTree, normal, treeEntry_map hphases, treeEntry_map stepsTree_normal]

/-! ### Templates of steps and of variables -/

theorem yields_readStepsTemplate : Yields readStepsTemplate fun t => SoundSteps t.steps := by
  refine yields_mappingOf nofun fun t h => yields_bind_of_forall fun key => ?_
  split
  · exact yields_readSimpleSteps.bind fun steps hsteps => yields_pure hsteps
  · exact yields_failAt _ _ _

/-- What is read back of a template of steps. -/
def StepsTemplate.normal (t : StepsTemplate) : StepsTemplate := ⟨t.steps.map SimpleStep.normal⟩

theorem takes_readStepsTemplate {t : StepsTemplate} (h : SoundSteps t.steps) :
    Takes readStepsTemplate t.toTree.events t.normal := by
  refine takes_mappingOf ?_ (.unless (fun hempty => ?_) fun _ => ?_)
  · exact List.Nodup.sublist (keys_unless _ _ _) (List.nodup_singleton _)
  · rw [StepsTemplate.normal, List.isEmpty_iff.mp hempty]
    rfl
  · exact takes_key ((takes_simpleSteps h).map StepsTemplate.mk) fun key hkey => if_pos hkey

@[simp] theorem StepsTemplate.toTree_normal (t : StepsTemplate) : t.normal.toTree = t.toTree := by
  simp [toTree, normal]

theorem yields_readVariablesTemplate :
    Yields readVariablesTemplate fun t => ∀ v ∈ t.vars, v.name ≠ "" := by
  refine yields_mappingOf nofun fun t h => yields_bind_of_forall fun key => ?_
  split
  · exact yields_readSimpleVariables.bind fun vars hvars => yields_pure hvars
  · exact yields_failAt _ _ _

/-- What is read back of a template of variables. -/
def VariablesTemplate.normal (t : VariablesTemplate) : VariablesTemplate := ⟨normalValues t.vars⟩

theorem takes_readVariablesTemplate {t : VariablesTemplate} (h : ∀ v ∈ t.vars, v.name ≠ "") :
    Takes readVariablesTemplate t.toTree.events t.normal := by
  refine takes_mappingOf ?_ (.unless (fun hempty => ?_) fun _ => ?_)
  · exact List.Nodup.sublist (keys_unless _ _ _) (List.nodup_singleton _)
  · rw [VariablesTemplate.normal, List.isEmpty_iff.mp hempty]
    rfl
  · exact takes_key ((takes_simpleVariables h).map VariablesTemplate.mk) fun key hkey =>
      if_pos hkey

@[simp] theorem VariablesTemplate.toTree_normal (t : VariablesTemplate) :
    t.normal.toTree = t.toTree := by
  have hempty : (normalValues t.vars).isEmpty = t.vars.isEmpty := by
    have hnormal := isEmpty_normalVariables (t.vars.map .value)
    rwa [← map_normalValues, List.isEmpty_map, List.isEmpty_map] at hnormal
  rw [toTree, toTree, normal, hempty, map_normalValues, variablesTree_normal]

/-! ### All documents -/

/-- The kinds of documents. -/
inductive Kind where
  | process
  | processTemplate
  | phasesTemplate
  | stepsTemplate
  | variablesTemplate
deriving DecidableEq, Repr

/-- What a document of a kind holds. -/
def Kind.Content : Kind → Type
  | process => BuildProcess
  | processTemplate => ProcessTemplate
  | phasesTemplate => PhasesTemplate
  | stepsTemplate => StepsTemplate
  | variablesTemplate => VariablesTemplate

/-- Reads a document of a kind. -/
def Kind.read : (k : Kind) → Reader k.Content
  | process => BuildProcess.read
  | processTemplate => readProcessTemplate
  | phasesTemplate => readPhasesTemplate
  | stepsTemplate => readStepsTemplate
  | variablesTemplate => readVariablesTemplate

/-- A document of a kind as a tree. -/
def Kind.write : (k : Kind) → k.Content → Tree
  | process => BuildProcess.toTree
  | processTemplate => ProcessTemplate.toTree
  | phasesTemplate => PhasesTemplate.toTree
  | stepsTemplate => StepsTemplate.toTree
  | variablesTemplate => VariablesTemplate.toTree

/-- Whether a text gives a tree back: the same texts in the same places, none of them turned into
null. -/
def GivesBack (text : String) (t : Tree) : Prop :=
  ∃ es, Yaml.events text = .ok es ∧ Written t.events es

instance (text : String) (t : Tree) : Decidable (GivesBack text t) :=
  match h : Yaml.events text with
  | .ok es => decidable_of_iff (Written t.events es)
      ⟨fun hkept => ⟨es, h, hkept⟩, fun ⟨_, hes, hkept⟩ =>
        Except.ok.inj (h.symm.trans hes) ▸ hkept⟩
  | .error _ => .isFalse fun ⟨_, hes, _⟩ => nomatch h.symm.trans hes

/-- What has been read has what its reader gives it. -/
theorem of_readDocument {r : Reader α} {P : α → Prop} (h : Yields r P) {text : String} {a : α}
    (hread : readDocument r text = .ok a) : P a := by
  obtain ⟨es, -, hread⟩ := bind_eq_ok.mp hread
  exact h (.ofEvents es) a _ (Prod.ext hread rfl)

theorem readDocument_of_takes {r : Reader α} {t : Tree} {a : α} (h : Takes r t.events a)
    {text : String} (hback : GivesBack text t) : readDocument r text = .ok a := by
  obtain ⟨es, hes, hkept⟩ := hback
  have hrun := h es [] (es.getLast?.map (·.span)) hkept
  rw [List.append_nil] at hrun
  rw [readDocument, hes]
  exact congrArg Prod.fst hrun

/-- A text that is read at all is read as what comes of it. -/
theorem readDocument_getD {r : Reader α} {text : String} (a : α)
    (h : (readDocument r text).isOk = true) :
    readDocument r text = .ok ((readDocument r text).toOption.getD a) := by
  revert h
  cases readDocument r text with
  | error e => nofun
  | ok b => exact fun _ => rfl

/-- A document is stable when it is read back as one that is written alike. -/
theorem stable_of {r : Reader α} {write : α → Tree} {P : α → Prop} {normal : α → α}
    (hyields : Yields r P) (htakes : ∀ a, P a → Takes r (write a).events (normal a))
    (hwrite : ∀ a, write (normal a) = write a) {x written : String} {a : α}
    (hread : readDocument r x = .ok a) (hback : GivesBack written (write a)) :
    ∃ b, readDocument r written = .ok b ∧ write b = write a :=
  ⟨normal a, readDocument_of_takes (htakes a (of_readDocument hyields hread)) hback, hwrite a⟩

/-- **Documents of every kind are stable.** A document that has been read from any text is written
as a tree; a text that gives this tree back is read again by the same reader, and what is read is
written as the same tree. -/
theorem Kind.stable (k : Kind) {x written : String} {d : k.Content}
    (hread : readDocument k.read x = .ok d) (hback : GivesBack written (k.write d)) :
    ∃ d', readDocument k.read written = .ok d' ∧ k.write d' = k.write d := by
  cases k with
  | process => exact stable_of yields_read (fun _ => takes_read) toTree_normal hread hback
  | processTemplate =>
      exact stable_of yields_readProcessTemplate (fun _ => takes_readProcessTemplate)
        ProcessTemplate.toTree_normal hread hback
  | phasesTemplate =>
      exact stable_of yields_readPhasesTemplate (fun _ => takes_readPhasesTemplate)
        PhasesTemplate.toTree_normal hread hback
  | stepsTemplate =>
      exact stable_of yields_readStepsTemplate (fun _ => takes_readStepsTemplate)
        StepsTemplate.toTree_normal hread hback
  | variablesTemplate =>
      exact stable_of yields_readVariablesTemplate (fun _ => takes_readVariablesTemplate)
        VariablesTemplate.toTree_normal hread hback

/-- A task that says what a shorthand says, in words of its own. -/
def shorthandTask : String :=
  "queue: {name: a}\nsteps:\n- task: Bash@3\n  inputs: {TARGETTYPE: Inline, script: make}\n"

/-- The process that it is read as. -/
def shorthandProcess : BuildProcess := (readDocument read shorthandTask).toOption.getD {}

theorem Kind.stable_shorthandTask :
    readDocument Kind.process.read shorthandTask = .ok shorthandProcess ∧
      GivesBack (Kind.process.write shorthandProcess).render (Kind.process.write shorthandProcess) ∧
      ∃ d', readDocument Kind.process.read (Kind.process.write shorthandProcess).render = .ok d' ∧
        Kind.process.write d' = Kind.process.write shorthandProcess := by
  have hread : readDocument Kind.process.read shorthandTask = .ok shorthandProcess := by
    have hok : (readDocument BuildProcess.read shorthandTask).isOk = true := by decide +kernel
    show readDocument BuildProcess.read shorthandTask =
      .ok ((readDocument BuildProcess.read shorthandTask).toOption.getD {})
    revert hok
    cases readDocument BuildProcess.read shorthandTask with
    | error e => nofun
    | ok d => exact fun _ => rfl
  have hback : GivesBack (Kind.process.write shorthandProcess).render
      (Kind.process.write shorthandProcess) := by
    decide +kernel
  exact ⟨hread, hback, Kind.stable .process hread hback⟩

end PipelineExpansion.BuildProcess
