import PipelineExpansion.Proofs.BuildProcess.Target

/-!
# Phases are read back

The properties of a phase are read in the same way for a phase and for a process;
`entries_properties` is about any reader that hands the keys of properties to `Properties.read?`.

## Main results

* `yields_readPhase`: what holds of every entry of a list of phases that has been read.
* `takes_phase`: what an entry of a list of phases is written as is read as its normal form.
* `PhaseEntry.toTree_normal`: an entry and its normal form are written alike.
-/

namespace PipelineExpansion.BuildProcess

open Yaml

variable {σ : Type}

/-! ### Properties -/

/-- What holds of all properties of a phase that have been read. -/
structure Properties.Sound (p : Properties) : Prop where
  dependsOn : ∀ s ∈ p.dependsOn, s ≠ ""
  condition : p.condition ≠ some ""
  continueOnError : p.continueOnError ≠ some ""
  enableAccessToken : p.enableAccessToken ≠ some ""
  target : ∀ t ∈ p.target, t.Sound

theorem Properties.sound_empty : Properties.Sound {} := ⟨nofun, nofun, nofun, nofun, nofun⟩

theorem Properties.yields_read? {p : Properties} (h : p.Sound) (key : Scalar) :
    Yields (p.read? key) fun result => ∀ q ∈ result, q.Sound := by
  unfold Properties.read?
  split
  · exact yields_readTexts.bind fun items hitems =>
      yields_pure (forall_mem_some { h with dependsOn := hitems })
  · exact yields_nonEmpty.bind fun s hs =>
      yields_pure (forall_mem_some { h with condition := some_ne_some_empty hs })
  · exact yields_nonEmpty.bind fun s hs =>
      yields_pure (forall_mem_some { h with continueOnError := some_ne_some_empty hs })
  · exact yields_nonEmpty.bind fun s hs =>
      yields_pure (forall_mem_some { h with enableAccessToken := some_ne_some_empty hs })
  · exact yields_bind_of_forall fun _ => yields_readQueue.bind fun t ht =>
      yields_pure (forall_mem_some { h with target := forall_mem_some (a := Target.queue t) ht })
  · exact yields_bind_of_forall fun _ => yields_readDeployment.bind fun t ht =>
      yields_pure
        (forall_mem_some { h with target := forall_mem_some (a := Target.deployment t) ht })
  · refine yields_bind_of_forall fun _ => yields_readServer.bind fun target htarget => ?_
    refine yields_pure (forall_mem_some { h with target := fun t ht => ?_ })
    obtain ⟨server, hserver, rfl⟩ := Option.map_eq_some_iff.mp ht
    exact htarget server hserver
  · exact yields_pure fun q hq => by cases hq

/-- The keys of properties. -/
def Properties.keywords : List String :=
  ["dependsOn", "condition", "continueOnError", "enableAccessToken", "queue", "deployment",
    "server"]

/-- The entry for a target. -/
def targetEntry (target : Option Target) : List (String × Tree) :=
  (target.map fun t => (t.keyword, t.toTree)).toList

theorem keys_targetEntry (target : Option Target) :
    (Tree.keys (targetEntry target)).Sublist ["queue", "deployment", "server"] := by
  cases target with
  | none => exact List.nil_sublist _
  | some t =>
      have hkeys : Tree.keys (targetEntry (some t)) = [t.keyword] := rfl
      rw [hkeys, List.singleton_sublist]
      cases t <;> simp [Target.keyword]

theorem keys_properties (p : Properties) :
    (Tree.keys p.toEntries).Sublist Properties.keywords := by
  have hkeywords : Properties.keywords = ["dependsOn"] ++ ["condition"] ++ ["continueOnError"]
      ++ ["enableAccessToken"] ++ ["queue", "deployment", "server"] := rfl
  rw [hkeywords, Properties.toEntries]
  simp only [Tree.keys_append]
  exact ((((keys_textsEntry _ _).append (keys_filledEntry _ _)).append
    (keys_filledEntry _ _)).append
    (keys_filledEntry _ _)).append (keys_targetEntry _)

/-- A target is read where there is none yet. -/
theorem takes_target {p : Properties} (hp : p.target = none) {t : Target} (h : t.Sound)
    {key : Scalar}
    (hkey : key.text = t.keyword) :
    Takes (p.read? key) t.toTree.events (some { p with target := some t }) := by
  unfold Properties.read?
  cases t with
  | queue t =>
      simp only [hkey, Target.keyword, hp]
      exact (takes_readQueue h).map fun t => some { p with target := some (.queue t) }
  | deployment t =>
      simp only [hkey, Target.keyword, hp]
      exact (takes_readDeployment h).map fun t => some { p with target := some (.deployment t) }
  | server t =>
      simp only [hkey, Target.keyword, hp]
      exact (takes_readServer h).map fun target => some { p with target := target.map .server }

/-- The properties of a phase are read by every reader that leaves their keys to
`Properties.read?`. -/
theorem entries_properties {body : σ → Scalar → Reader σ} (set : Properties → σ) {p : Properties}
    (h : p.Sound)
    (hbody : ∀ q key, key.text ∈ Properties.keywords → ∃ f : Option Properties → Reader σ,
      body (set q) key = q.read? key >>= f ∧ ∀ q', f (some q') = pure (set q')) :
    Entries (fun a => Reader.scalar >>= body a) (set {}) p.toEntries (set p) := by
  obtain ⟨dependsOn, condition, continueOnError, enableAccessToken, target⟩ := p
  have hfield : ∀ {α : Type} {q : Properties} {key : Scalar} {r : Reader α} {g : α → Properties},
      key.text ∈ Properties.keywords → (q.read? key = r >>= fun a => pure (some (g a))) →
        body (set q) key = r >>= fun a => pure (set (g a)) := by
    intro α q key r g hkey hread
    obtain ⟨f, hf, hsome⟩ := hbody q key hkey
    rw [hf, hread, bind_assoc]
    refine bind_congr fun a => ?_
    rw [pure_bind, hsome]
  let p₁ : Properties := { dependsOn }
  let p₂ : Properties := { p₁ with condition }
  let p₃ : Properties := { p₂ with continueOnError }
  let p₄ : Properties := { p₃ with enableAccessToken }
  have hdependsOn : Entries (fun a => Reader.scalar >>= body a) (set {})
      (textsEntry "dependsOn" dependsOn) (set p₁) :=
    entries_textsEntry (fun v => set { p₁ with dependsOn := v }) h.dependsOn fun key hkey =>
      hfield (by simp [hkey, Properties.keywords]) (by simp only [Properties.read?, hkey])
  have hcondition : Entries (fun a => Reader.scalar >>= body a) (set p₁)
      (filledEntry "condition" condition) (set p₂) :=
    entries_nonEmpty_filled (fun v => set { p₁ with condition := v }) h.condition fun key hkey =>
      hfield (by simp [hkey, Properties.keywords]) (by simp only [Properties.read?, hkey])
  have hcontinue : Entries (fun a => Reader.scalar >>= body a) (set p₂)
      (filledEntry "continueOnError" continueOnError) (set p₃) :=
    entries_nonEmpty_filled (fun v => set { p₂ with continueOnError := v }) h.continueOnError
      fun key hkey =>
        hfield (by simp [hkey, Properties.keywords]) (by simp only [Properties.read?, hkey])
  have haccess : Entries (fun a => Reader.scalar >>= body a) (set p₃)
      (filledEntry "enableAccessToken" enableAccessToken) (set p₄) :=
    entries_nonEmpty_filled (fun v => set { p₃ with enableAccessToken := v }) h.enableAccessToken
      fun key hkey =>
        hfield (by simp [hkey, Properties.keywords]) (by simp only [Properties.read?, hkey])
  refine (((hdependsOn.append hcondition).append hcontinue).append haccess).append ?_
  cases target with
  | none => exact .nil _
  | some t =>
      refine .single (takes_scalar_bind fun key hkey _ => ?_)
      have hmem : key.text ∈ Properties.keywords := by
        rw [hkey]
        cases t <;> simp [Target.keyword, Properties.keywords]
      obtain ⟨f, hf, hsome⟩ := hbody p₄ key hmem
      have htarget := takes_target (p := p₄) rfl (h.target t rfl) hkey
      rw [hf]
      exact htarget.bind_nil (hsome _ ▸ takes_pure _)

/-! ### References to templates -/

/-- What holds of all overrides for a phase that have been read. -/
structure Selector.Sound (s : Selector) : Prop where
  name : s.name ≠ ""
  overrides : SoundOverrides s.overrides

/-- What is read back of overrides for a phase. -/
def Selector.normal (s : Selector) : Selector :=
  { s with overrides := normalOverrides s.overrides }

@[simp] theorem Selector.toTree_normal (s : Selector) : s.normal.toTree = s.toTree := by
  simp [normal, toTree]

theorem yields_readSelector : Yields readSelector Selector.Sound := by
  refine yields_bind_of_forall fun _ => yields_bind_of_forall fun _ =>
    yields_nonEmpty.bind fun name hname => ?_
  refine Yields.bind (P := SoundOverrides) ?_ fun o ho => yields_pure ⟨hname, ho⟩
  refine yields_untilEnd soundOverrides_nil fun _ _ => yields_bind_of_forall fun key => ?_
  split
  · exact yields_readOverrides
  · exact yields_failAt _ _ _

theorem takes_exact_bind {s : String} {f : Unit → Reader σ} {w : List Event} {b : σ}
    (h : Takes (f ()) w b) :
    Takes (Reader.exact s >>= f) (.scalar s false :: w) b := by
  rw [Reader.exact, bind_assoc]
  refine takes_scalar_bind fun key hkey _ => ?_
  rw [hkey, if_pos rfl, pure_bind]
  exact h

theorem takes_selector {s : Selector} (h : s.Sound) :
    Takes readSelector s.toTree.events s.normal := by
  have hkeys : (Tree.keys ([("name", .text s.name)] ++ overridesEntry s.overrides)).Nodup := by
    refine List.Nodup.sublist ?_ (by decide : (["name"] ++ ["steps"]).Nodup)
    rw [Tree.keys_append]
    exact (List.Sublist.refl _).append (keys_overridesEntry _)
  have hentries : Entries (fun _ => do
      let key ← Reader.scalar
      if key.text = "steps" then readOverrides else unexpectedProperty key) []
      (overridesEntry s.overrides) (normalOverrides s.overrides) := by
    refine .unless (fun hempty => ?_) fun _ =>
      takes_key (takes_overrides h.overrides) fun key hkey => if_pos hkey
    rw [List.isEmpty_iff.mp hempty]
    rfl
  rw [Selector.toTree, Tree.ofEntries_of_nodup hkeys]
  refine takes_expect_bind rfl fun _ => takes_exact_bind ?_
  exact (takes_nonEmpty h.name).bind ((takes_entries hentries).map (Selector.mk s.name))

/-- What holds of every reference to a template of phases or of a process that has been read. -/
structure PhasesReference.Sound (r : PhasesReference) : Prop where
  path : r.path ≠ ""
  parameters : SoundParameters r.parameters
  overrides : SoundOverrides r.overrides
  selectors : ∀ s ∈ r.selectors, s.Sound

/-- What is read back of a reference. -/
def PhasesReference.normal (r : PhasesReference) : PhasesReference :=
  { r with overrides := normalOverrides r.overrides, selectors := r.selectors.map Selector.normal }

@[simp] theorem PhasesReference.bodyEntries_normal (r : PhasesReference) :
    r.normal.bodyEntries = r.bodyEntries := by
  simp [normal, bodyEntries, Function.comp_def]

theorem yields_readPhasesReference : Yields readPhasesReference PhasesReference.Sound := by
  refine yields_nonEmpty.bind fun path hpath => ?_
  refine yields_untilEnd ⟨hpath, soundParameters_nil, soundOverrides_nil, nofun⟩ fun r h => ?_
  refine yields_bind_of_forall fun key => ?_
  split
  · exact (yields_mapping 1).bind fun parameters hp => yields_pure { h with parameters := hp }
  · exact yields_readOverrides.bind fun o ho => yields_pure { h with overrides := ho }
  · exact (yields_sequenceOf yields_readSelector).bind fun ss hss =>
      yields_pure { h with selectors := hss }
  · exact yields_failAt _ _ _

theorem keys_bodyEntries (r : PhasesReference) :
    (Tree.keys r.bodyEntries).Sublist (["parameters"] ++ ["phases"] ++ ["steps"]) := by
  simp only [PhasesReference.bodyEntries, Tree.keys_append]
  exact ((keys_parametersEntry _).append (keys_unless _ _ _)).append (keys_overridesEntry _)

theorem takes_phasesReference {r : PhasesReference} (h : r.Sound) :
    Takes readPhasesReference
      (.scalar r.path false :: (Tree.entryEvents r.bodyEntries ++ [.mappingEnd]))
      r.normal := by
  have hentries : Entries PhasesReference.property { path := r.path } r.bodyEntries r.normal := by
    let r₁ : PhasesReference := { path := r.path, parameters := r.parameters }
    let r₂ : PhasesReference := { r₁ with selectors := r.selectors.map Selector.normal }
    have hparameters : Entries PhasesReference.property { path := r.path }
        (parametersEntry r.parameters) r₁ :=
      entries_parameters (fun v => PhasesReference.mk r.path v [] []) h.parameters
        fun key hkey => by simp only [hkey]
    have hselectors : Entries PhasesReference.property r₁
        (if r.selectors.isEmpty then [] else [("phases", .sequence (r.selectors.map Selector.toTree))])
        r₂ := by
      refine .unless (fun hempty => ?_) fun _ => ?_
      · simp only [r₂, List.isEmpty_iff.mp hempty]
        rfl
      · have htake := (takes_sequenceOf fun s hs => takes_selector (h.selectors s hs)).map
          fun selectors => { r₁ with selectors }
        exact takes_key htake fun key hkey => by simp only [hkey]
    have hoverrides : Entries PhasesReference.property r₂ (overridesEntry r.overrides) r.normal :=
      entries_overrides (fun v => { r₂ with overrides := v }) h.overrides
        fun key hkey => by simp only [hkey]
    exact (hparameters.append hselectors).append hoverrides
  exact (takes_nonEmpty h.path).bind (takes_entries hentries)

/-! ### Phases -/

/-- What holds of every phase that has been read. -/
structure Phase.Sound (p : Phase) : Prop where
  name : ∃ name, name ≠ "" ∧ p.name = some name
  properties : p.properties.Sound
  vars : ∀ v ∈ p.vars, v.Sound
  steps : ∀ s ∈ p.steps, s.Sound

/-- What is read back of a phase. -/
def Phase.normal (p : Phase) : Phase :=
  { p with vars := normalVariables p.vars, steps := p.steps.map Step.normal }

@[simp] theorem Phase.toTree_normal (p : Phase) : p.normal.toTree = p.toTree := by
  simp [normal, toTree]

theorem Phase.yields_property {p : Phase} (h : p.Sound) : Yields p.property Sound := by
  refine yields_bind_of_forall fun key => (p.properties.yields_read? h.properties key).bind
    fun result hresult => ?_
  cases result with
  | some properties => exact yields_pure { h with properties := hresult properties rfl }
  | none =>
      split
      · next heq => cases heq
      · split
        · exact yields_readVariables.bind fun vars hvars => yields_pure { h with vars := hvars }
        · exact yields_readSteps.bind fun steps hsteps => yields_pure { h with steps := hsteps }
        · exact yields_failAt _ _ _

theorem yields_readPhaseBody : Yields readPhaseBody Phase.Sound := by
  refine yields_nonEmpty.bind fun name hname => ?_
  exact yields_untilEnd ⟨⟨name, hname, rfl⟩, Properties.sound_empty, nofun, nofun⟩ fun p h =>
    p.yields_property h

theorem yields_readSimplePhase : Yields readSimplePhase Phase.Sound := by
  refine yields_bind_of_forall fun _ => yields_bind_of_forall fun first => ?_
  split
  · exact yields_readPhaseBody
  · split <;> exact yields_failAt _ _ _

/-- The entries of a phase behind its name. -/
def Phase.entries (p : Phase) : List (String × Tree) :=
  p.properties.toEntries
    ++ (if p.vars.isEmpty then [] else [("variables", variablesTree p.vars)])
    ++ (if p.steps.isEmpty then [] else [("steps", stepsTree p.steps)])

theorem Phase.toTree_eq {p : Phase} {name : String} (hname : p.name = some name) :
    p.toTree = .mapping (("phase", .text name) :: p.entries) := by
  have hkeys : (Tree.keys ([("phase", Tree.text name)] ++ p.properties.toEntries
      ++ (if p.vars.isEmpty then [] else [("variables", variablesTree p.vars)])
      ++ (if p.steps.isEmpty then [] else [("steps", stepsTree p.steps)]))).Nodup := by
    refine List.Nodup.sublist ?_
      (by decide : (["phase"] ++ Properties.keywords ++ ["variables"] ++ ["steps"]).Nodup)
    simp only [Tree.keys_append]
    have hproperties := (List.Sublist.refl ["phase"]).append (keys_properties p.properties)
    exact (hproperties.append (keys_unless _ _ _)).append (keys_unless _ _ _)
  rw [toTree, hname, Option.getD_some, Tree.ofEntries_of_nodup hkeys, entries]
  simp only [List.append_assoc, List.cons_append, List.nil_append]

theorem takes_phaseBody {p : Phase} (h : p.Sound) {name : String} (hname : p.name = some name) :
    Takes readPhaseBody (.scalar name false :: (Tree.entryEvents p.entries ++ [.mappingEnd]))
      p.normal := by
  obtain ⟨_, hne, hsome⟩ := h.name
  obtain rfl := Option.some_inj.mp (hname.symm.trans hsome)
  have hentries : Entries Phase.property { name := some name } p.entries p.normal := by
    let p₁ : Phase := { name := some name, properties := p.properties }
    let p₂ : Phase := { p₁ with vars := normalVariables p.vars }
    have hproperties :
        Entries Phase.property { name := some name } p.properties.toEntries p₁ :=
      entries_properties (fun v => Phase.mk (some name) v [] []) h.properties
        fun q key hkey => ⟨_, rfl, fun _ => rfl⟩
    have hvars : Entries Phase.property p₁
        (if p.vars.isEmpty then [] else [("variables", variablesTree p.vars)]) p₂ := by
      refine .unless (fun hempty => ?_) fun _ => ?_
      · simp only [p₂, List.isEmpty_iff.mp hempty]
        rfl
      · have htake := (takes_variables h.vars).map fun v => { p₁ with vars := v }
        exact takes_key htake fun key hkey => by simp [Properties.read?, hkey]
    have hsteps : Entries Phase.property p₂
        (if p.steps.isEmpty then [] else [("steps", stepsTree p.steps)]) p.normal := by
      refine .unless (fun hempty => ?_) fun _ => ?_
      · rw [Phase.normal, List.isEmpty_iff.mp hempty, hname]
        rfl
      · rw [Phase.normal, hname]
        have htake := (takes_steps h.steps).map fun v => { p₂ with steps := v }
        exact takes_key htake fun key hkey => by simp [Properties.read?, hkey]
    exact (hproperties.append hvars).append hsteps
  exact (takes_nonEmpty hne).bind (takes_entries hentries)

theorem beginsPhase_of_text {first : Scalar} (h : first.text = "phase") :
    beginsPhase first = true := by
  simp [beginsPhase, h]

theorem takes_simplePhase {p : Phase} (h : p.Sound) :
    Takes readSimplePhase p.toTree.events p.normal := by
  obtain ⟨name, -, hname⟩ := h.name
  rw [p.toTree_eq hname]
  refine takes_expect_bind rfl fun _ => takes_scalar_bind fun first hfirst _ => ?_
  rw [if_pos (beginsPhase_of_text hfirst)]
  exact takes_phaseBody h hname

/-! ### Entries of lists of phases -/

/-- What holds of every entry of a list of phases that has been read. -/
def PhaseEntry.Sound : PhaseEntry → Prop
  | .phase p => p.Sound
  | .template r => r.Sound

/-- What is read back of an entry. -/
def PhaseEntry.normal : PhaseEntry → PhaseEntry
  | .phase p => .phase p.normal
  | .template r => .template r.normal

/-- **An entry and its normal form are written alike.** -/
@[simp] theorem PhaseEntry.toTree_normal (e : PhaseEntry) : e.normal.toTree = e.toTree := by
  cases e with
  | phase p => exact p.toTree_normal
  | template r =>
      rw [normal, toTree, toTree, r.bodyEntries_normal]
      rfl

/-- **Every entry of a list of phases that has been read is sound.** -/
theorem yields_readPhase : Yields readPhase PhaseEntry.Sound := by
  refine yields_bind_of_forall fun _ => yields_bind_of_forall fun first => ?_
  split
  · exact yields_readPhaseBody.bind fun p hp => yields_pure hp
  · split
    · exact yields_readPhasesReference.bind fun r hr => yields_pure hr
    · exact yields_failAt _ _ _

/-- **What an entry of a list of phases is written as is read as its normal form.** -/
theorem takes_phase {e : PhaseEntry} (h : e.Sound) :
    Takes readPhase e.toTree.events e.normal := by
  cases e with
  | phase p =>
      obtain ⟨name, -, hname⟩ := Phase.Sound.name h
      rw [PhaseEntry.toTree, p.toTree_eq hname]
      refine takes_expect_bind rfl fun _ => takes_scalar_bind fun first hfirst _ => ?_
      rw [if_pos (beginsPhase_of_text hfirst)]
      exact (takes_phaseBody h hname).map PhaseEntry.phase
  | template r =>
      have hkeys : (Tree.keys ([("template", .text r.path)] ++ r.bodyEntries)).Nodup := by
        refine List.Nodup.sublist ?_
          (by decide : (["template"] ++ (["parameters"] ++ ["phases"] ++ ["steps"])).Nodup)
        rw [Tree.keys_append]
        exact (List.Sublist.refl _).append (keys_bodyEntries r)
      rw [PhaseEntry.toTree, Tree.ofEntries_of_nodup hkeys]
      refine takes_expect_bind rfl fun _ => takes_scalar_bind fun first hfirst _ => ?_
      rw [if_neg (by simp [beginsPhase, hfirst]), if_pos hfirst]
      exact (takes_phasesReference h).map PhaseEntry.template

theorem yields_readSimplePhases : Yields readSimplePhases fun phases => ∀ p ∈ phases, p.Sound :=
  yields_sequenceOf yields_readSimplePhase

theorem yields_readPhases : Yields readPhases fun phases => ∀ e ∈ phases, e.Sound :=
  yields_sequenceOf yields_readPhase

theorem takes_simplePhases {phases : List Phase} (h : ∀ p ∈ phases, p.Sound) :
    Takes readSimplePhases (phasesTree (phases.map .phase)).events (phases.map Phase.normal) := by
  rw [phasesTree, List.map_map]
  exact takes_sequenceOf fun p hp => takes_simplePhase (h p hp)

theorem takes_phases {phases : List PhaseEntry} (h : ∀ e ∈ phases, e.Sound) :
    Takes readPhases (phasesTree phases).events (phases.map PhaseEntry.normal) :=
  takes_sequenceOf fun e he => takes_phase (h e he)

@[simp] theorem phasesTree_normal (phases : List PhaseEntry) :
    phasesTree (phases.map PhaseEntry.normal) = phasesTree phases := by
  simp [phasesTree, Function.comp_def]

end PipelineExpansion.BuildProcess
