import PipelineExpansion.Pipeline.Load
import PipelineExpansion.Proofs.Pipeline.Congruence
import PipelineExpansion.Proofs.Pipeline.FileNumber
import PipelineExpansion.Proofs.Template.Retrace

/-!
# Composing again

What a document is composed to does not depend on the files that a load has read before, nor on how
much deeper references might lead, but for the numbers of files. Every composer is retraced by itself,
with tokens that differ in these numbers, and with references that retrace those of the first.

## Main results

* `retraced_references`: what references yield they yield again, also where they may lead deeper.
* `retraces_stepList`, `retraces_jobList`, `retraces_stageList`, `retraces_readTemplate`: so sections
  are composed again, and templates are read again.
-/

namespace PipelineExpansion.Pipeline

open Template (Context Entry Key Resolve Token Usage bareEntry fst_bareEntry)
open Template.Resolve

variable {maximum : Nat} {α β γ : Type} {view : α → γ} {refs refs' : References} {c : Context}
  {t t' : Token} {e e' : Entry} {entries entries' : List Entry}

/-! ### References -/

/-- References that yield again what others yield, up to the numbers of files. -/
structure Retraced (maximum : Nat) (refs refs' : References) : Prop where
  steps : ∀ {c : Context}, c.limits.maxFiles = maximum → ∀ (reference : String)
    {parameters parameters' : Option Token},
    parameters.map Token.bare = parameters'.map Token.bare →
    Retraces maximum id (refs.steps c reference parameters) (refs'.steps c reference parameters')
  jobs : ∀ {c : Context}, c.limits.maxFiles = maximum → ∀ (reference : String)
    {parameters parameters' : Option Token},
    parameters.map Token.bare = parameters'.map Token.bare →
    Retraces maximum (List.map Job.bare) (refs.jobs c reference parameters)
      (refs'.jobs c reference parameters')
  stages : ∀ {c : Context}, c.limits.maxFiles = maximum → ∀ (reference : String)
    {parameters parameters' : Option Token},
    parameters.map Token.bare = parameters'.map Token.bare →
    Retraces maximum (List.map Stage.bare) (refs.stages c reference parameters)
      (refs'.stages c reference parameters')
  vars : ∀ {c : Context}, c.limits.maxFiles = maximum → ∀ (vars : List Variable)
    (reference : String) {parameters parameters' : Option Token},
    parameters.map Token.bare = parameters'.map Token.bare →
    Retraces maximum id (refs.vars c vars reference parameters)
      (refs'.vars c vars reference parameters')

theorem name_eq_of_bare (h : bareEntry e = bareEntry e') : e.1.name = e'.1.name :=
  congrArg (·.1.name) h

theorem value_eq_of_bare (h : bareEntry e = bareEntry e') : e.2.bare = e'.2.bare :=
  congrArg Prod.snd h

/-- Entries are read again. -/
theorem retraces_entries {read read' : α → Entry → Resolve α}
    (hread : ∀ a a' e e', view a = view a' → bareEntry e = bareEntry e' →
      Retraces maximum view (read a e) (read' a' e'))
    (hentries : entries.map bareEntry = entries'.map bareEntry) {a a' : α} (ha : view a = view a') :
    Retraces maximum view (entries.foldlM read a) (entries'.foldlM read' a') :=
  .foldlM hread hentries ha

/-- Fields are read again, one after another, from the entries of a mapping. -/
theorem retraces_fields {read read' : α → Entry → Resolve α} (ht : t.bare = t'.bare) (what : String)
    (hread : ∀ a a' e e', view a = view a' → bareEntry e = bareEntry e' →
      Retraces maximum view (read a e) (read' a' e')) {a a' : α} (ha : view a = view a') :
    Retraces maximum view (do (← Resolve.ofExcept (t.expectMapping what)).foldlM read a)
      (do (← Resolve.ofExcept (t'.expectMapping what)).foldlM read' a') :=
  (retraces_expectMapping ht what).bind fun _ _ hentries => retraces_entries hread hentries ha

/-! ### Steps -/

theorem retraces_stepsOfItem (h : Retraced c.limits.maxFiles refs refs') (ht : t.bare = t'.bare) :
    Retraces c.limits.maxFiles id (stepsOfItem refs c t) (stepsOfItem refs' c t') := by
  refine (retraces_expectMapping ht _).bind fun entries entries' hentries => ?_
  rcases entries with _ | ⟨⟨key, value⟩, rest⟩
  · exact retraces_throw _ _
  · obtain ⟨⟨key', value'⟩, rest', rfl, he, hrest⟩ := List.map_eq_cons_iff.mp hentries.symm
    have hvalue : value.bare = value'.bare := value_eq_of_bare he.symm
    have hname : key.name = key'.name := name_eq_of_bare he.symm
    have hkey : key.bare = key'.bare := congrArg Prod.fst he.symm
    dsimp only
    rw [hname]
    split
    · refine (retraces_expectNonEmpty hvalue _).then fun path => ?_
      refine (retraces_of_bare templateParameters_bare hrest.symm).bind fun _ _ hparameters => ?_
      exact h.steps rfl path hparameters
    · have hstep : Step.ofEntries? c key value rest = Step.ofEntries? c key' value' rest' := by
        rw [← Step.ofEntries?_bare, hkey, hvalue, ← hrest, Step.ofEntries?_bare]
      rw [hstep]
      exact (retraces_ofExcept_self _).map fun s s' hs => congrArg ([·]) hs

theorem retraces_stepsOfItems (h : Retraced c.limits.maxFiles refs refs') {items items' : List Token}
    (hitems : items.map Token.bare = items'.map Token.bare) :
    Retraces c.limits.maxFiles id (stepsOfItems refs c items) (stepsOfItems refs' c items') := by
  have hitem (t t' : Token) (ht : t.bare = t'.bare) : Retraces c.limits.maxFiles (List.map id)
      (stepsOfItem refs c t) (stepsOfItem refs' c t') := by
    rw [List.map_id_fun]
    exact retraces_stepsOfItem h ht
  have hall := Retraces.collects (collects_stepsOfItems refs c) (collects_stepsOfItems refs' c) hitem
    hitems
  rwa [List.map_id_fun] at hall

theorem isNull_eq_of_bare (ht : t.bare = t'.bare) : t.isNull = t'.isNull := by
  rw [← Token.isNull_bare, ht, Token.isNull_bare]

theorem retraces_stepList (h : Retraced c.limits.maxFiles refs refs') (ht : t.bare = t'.bare) :
    Retraces c.limits.maxFiles id (stepList refs c t) (stepList refs' c t') := by
  unfold stepList
  rw [isNull_eq_of_bare ht]
  split
  · exact retraces_pure rfl
  · exact (retraces_expectSequence ht _).bind fun _ _ hitems =>
      retraces_stepsOfItems h hitems

/-! ### Variables -/

theorem retraces_addVariableItem (h : Retraced c.limits.maxFiles refs refs') (vars : List Variable)
    (ht : t.bare = t'.bare) :
    Retraces c.limits.maxFiles id (addVariableItem refs c vars t)
      (addVariableItem refs' c vars t') := by
  have hread (entries : List Entry) : (entries.map bareEntry).foldlM VariableItem.read {} =
      VariableItem.bare <$> entries.foldlM VariableItem.read {} :=
    Template.foldlM_hom VariableItem.read_bare entries {}
  refine (retraces_expectMapping ht _).bind fun entries entries' hentries => ?_
  refine (retraces_of_bare hread hentries).bind fun item item' hitem => ?_
  obtain ⟨name, value, readonly, group, template, parameters⟩ := item
  obtain ⟨name', value', readonly', group', template', parameters'⟩ := item'
  simp only [VariableItem.bare, VariableItem.mk.injEq] at hitem
  obtain ⟨rfl, rfl, rfl, rfl, rfl, hparameters⟩ := hitem
  dsimp only
  split
  · exact retraces_pure rfl
  · exact h.vars rfl vars _ hparameters
  · exact retraces_pure rfl
  · exact retraces_throw _ _

theorem retraces_addVariables (h : Retraced c.limits.maxFiles refs refs') (vars : List Variable)
    (ht : t.bare = t'.bare) :
    Retraces c.limits.maxFiles id (addVariables refs c vars t) (addVariables refs' c vars t') := by
  have hitem (vars vars' : List Variable) (t t' : Token) (hvars : id vars = id vars')
      (ht : t.bare = t'.bare) : Retraces c.limits.maxFiles id (addVariableItem refs c vars t)
        (addVariableItem refs' c vars' t') := by
    obtain rfl : vars = vars' := hvars
    exact retraces_addVariableItem h vars ht
  have hsection {t t' : Token} (ht : t.bare = t'.bare) : Retraces c.limits.maxFiles id
      (do (← Resolve.ofExcept (t.expectSequence "variables")).foldlM (addVariableItem refs c) vars)
      (do (← Resolve.ofExcept (t'.expectSequence "variables")).foldlM (addVariableItem refs' c) vars) :=
    (retraces_expectSequence ht _).bind fun _ _ hitems =>
      .foldlM hitem hitems rfl
  cases t <;> cases t' <;> first | cases ht | skip
  case null.null => exact retraces_pure rfl
  case mapping.mapping o entries o' entries' =>
    rw [Token.bare_mapping, Token.bare_mapping] at ht
    exact retraces_of_same (f := fun entries => entries.foldlM addVariableEntry vars)
      (fun entries => by simp [List.foldlM_map]) (Token.mapping.inj ht).2
  all_goals exact hsection ht

/-! ### Rollouts -/

theorem retraces_hook (h : Retraced c.limits.maxFiles refs refs') (ht : t.bare = t'.bare) :
    Retraces c.limits.maxFiles id (Hook.ofToken? refs c t) (Hook.ofToken? refs' c t') := by
  refine retraces_fields ht _ (fun hook hook' e e' hhook he => ?_) rfl
  obtain rfl : hook = hook' := hhook
  unfold Hook.read
  rw [name_eq_of_bare he]
  split
  · exact (retraces_stepList h (value_eq_of_bare he)).then fun _ => retraces_pure rfl
  · exact (retraces_of_same Pool.ofToken?_bare (value_eq_of_bare he)).then fun _ => retraces_pure rfl
  · exact retraces_pure rfl

theorem retraces_readOutcome (h : Retraced c.limits.maxFiles refs refs') (hooks : Hooks)
    (he : bareEntry e = bareEntry e') :
    Retraces c.limits.maxFiles id (hooks.readOutcome refs c e) (hooks.readOutcome refs' c e') := by
  have hhook := retraces_hook h (value_eq_of_bare he)
  unfold Hooks.readOutcome
  rw [name_eq_of_bare he]
  split
  · exact hhook.then fun _ => retraces_pure rfl
  · exact hhook.then fun _ => retraces_pure rfl
  · exact retraces_pure rfl

theorem retraces_hooks (h : Retraced c.limits.maxFiles refs refs') (ht : t.bare = t'.bare) :
    Retraces c.limits.maxFiles id (Hooks.ofToken? refs c t) (Hooks.ofToken? refs' c t') := by
  refine retraces_fields ht _ (fun hooks hooks' e e' hhooks he => ?_) rfl
  obtain rfl : hooks = hooks' := hhooks
  have hhook := retraces_hook h (value_eq_of_bare he)
  unfold Hooks.read
  rw [name_eq_of_bare he]
  split
  · exact hhook.then fun _ => retraces_pure rfl
  · exact hhook.then fun _ => retraces_pure rfl
  · exact hhook.then fun _ => retraces_pure rfl
  · exact hhook.then fun _ => retraces_pure rfl
  · refine retraces_fields (value_eq_of_bare he) _ (fun hooks hooks' e e' hhooks he => ?_) rfl
    obtain rfl : hooks = hooks' := hhooks
    exact retraces_readOutcome h hooks he
  · exact retraces_pure rfl

theorem retraces_readForDeployment (h : Retraced c.limits.maxFiles refs refs') (s : Strategy)
    (he : bareEntry e = bareEntry e') :
    Retraces c.limits.maxFiles id (s.readForDeployment refs c e)
      (s.readForDeployment refs' c e') := by
  obtain ⟨⟨o, name⟩, value⟩ := e
  obtain ⟨⟨o', name'⟩, value'⟩ := e'
  obtain rfl : name = name' := name_eq_of_bare he
  have hvalue : value.bare = value'.bare := value_eq_of_bare he
  have hhooks := retraces_hooks h hvalue
  dsimp only [Strategy.readForDeployment]
  split
  · exact hhooks.then fun _ => retraces_pure rfl
  · exact hhooks.then fun _ => (retraces_of_same parallelOf_bare hvalue).then fun _ => retraces_pure rfl
  · exact hhooks.then fun _ => (retraces_of_same incrementsOf_bare hvalue).then fun _ => retraces_pure rfl
  · exact retraces_pure rfl

theorem retraces_strategy (h : Retraced c.limits.maxFiles refs refs') (ht : t.bare = t'.bare)
    (deployment : Bool) :
    Retraces c.limits.maxFiles id (Strategy.ofToken? refs c t deployment)
      (Strategy.ofToken? refs' c t' deployment) := by
  have hplain (entries : List Entry) : (entries.map bareEntry).foldlM Strategy.readForJob {} =
      entries.foldlM Strategy.readForJob {} := by
    simp [List.foldlM_map]
  refine (retraces_expectMapping ht _).bind fun entries entries' hentries => ?_
  split
  · refine retraces_entries (fun s s' e e' hs he => ?_) hentries rfl
    obtain rfl : s = s' := hs
    exact retraces_readForDeployment h s he
  · exact retraces_of_same hplain hentries

/-! ### Jobs -/

theorem retraces_readJobDraft (h : Retraced c.limits.maxFiles refs refs') {d d' : JobDraft}
    (hd : d.bare = d'.bare) (he : bareEntry e = bareEntry e') :
    Retraces c.limits.maxFiles JobDraft.bare (d.read refs c e) (d'.read refs' c e') := by
  obtain ⟨job, strategy⟩ := d
  obtain ⟨job', strategy'⟩ := d'
  obtain ⟨hjob, hstrategy⟩ := JobDraft.mk.inj hd
  have hvalue := value_eq_of_bare he
  unfold JobDraft.read
  rw [name_eq_of_bare he]
  split
  · refine retraces_pure ?_
    simp only [JobDraft.bare, hjob, Option.map_some, hvalue]
  · refine (retraces_addVariables h [] hvalue).then fun vars => retraces_pure ?_
    have hset (job : Job) :
        { job with vars := some vars }.bare = { job.bare with vars := some vars } := rfl
    simp only [JobDraft.bare, hset, hjob, hstrategy]
  · refine (retraces_stepList h hvalue).then fun steps => retraces_pure ?_
    have hset (job : Job) :
        { job with steps := some steps }.bare = { job.bare with steps := some steps } := rfl
    simp only [JobDraft.bare, hset, hjob, hstrategy]
  · have hplain : Job.bare <$> job.readPlain e = Job.bare <$> job'.readPlain e' := by
      rw [← Job.readPlain_bare, ← Job.readPlain_bare, hjob, he]
    refine (retraces_ofExcept hplain).map fun job job' hjob => ?_
    simp only [JobDraft.bare, hjob, hstrategy]

theorem retraces_job (h : Retraced c.limits.maxFiles refs refs') (ht : t.bare = t'.bare)
    (implicit : Bool) :
    Retraces c.limits.maxFiles Job.bare (Job.ofToken? refs c t implicit)
      (Job.ofToken? refs' c t' implicit) := by
  refine (retraces_expectMapping ht _).bind fun entries entries' hentries => ?_
  have hfirst : firstKey? entries = firstKey? entries' := by
    rw [← firstKey?_bare, hentries, firstKey?_bare]
  rw [hfirst]
  split
  · exact retraces_throw _ _
  · refine (retraces_entries (fun _ _ _ _ hd he => retraces_readJobDraft h hd he) hentries rfl).bind ?_
    rintro ⟨job, strategy⟩ ⟨job', strategy'⟩ hd
    obtain ⟨hjob, hstrategy⟩ := JobDraft.mk.inj hd
    have hdeployment : job.deployment = job'.deployment := (congrArg Job.deployment hjob :)
    cases strategy with
    | none =>
        obtain rfl : strategy' = none := Option.map_eq_none_iff.mp hstrategy.symm
        exact retraces_pure hjob
    | some strategy =>
        obtain ⟨strategy', rfl, hsame⟩ := Option.map_eq_some_iff.mp hstrategy.symm
        have hread : Retraces c.limits.maxFiles id
            (Strategy.ofToken? refs c strategy job.deployment)
            (Strategy.ofToken? refs' c strategy' job'.deployment) := by
          rw [hdeployment]
          exact retraces_strategy h hsame.symm _
        refine hread.then fun s => retraces_pure ?_
        exact (congrArg (fun j : Job => { j with strategy := some s }) hjob :)

/-- What an item stands for, be it what a template has or what is written out. -/
theorem retraces_templateOr {entries entries' : List Entry}
    (hentries : entries.map bareEntry = entries'.map bareEntry)
    {follow follow' : String → Option Token → Resolve α} {plain plain' : Resolve α}
    (hfollow : ∀ path parameters parameters',
      Option.map Token.bare parameters = Option.map Token.bare parameters' →
        Retraces maximum view (follow path parameters) (follow' path parameters'))
    (hplain : Retraces maximum view plain plain') :
    Retraces maximum view
      (match templateReference? entries with
        | some (path, rest) => do
            let path ← Resolve.ofExcept (path.expectNonEmpty "template")
            follow path (← Resolve.ofExcept (templateParameters rest))
        | none => plain)
      (match templateReference? entries' with
        | some (path, rest) => do
            let path ← Resolve.ofExcept (path.expectNonEmpty "template")
            follow' path (← Resolve.ofExcept (templateParameters rest))
        | none => plain') := by
  have hreference := congrArg templateReference? hentries
  rw [templateReference?_bare, templateReference?_bare] at hreference
  cases hfound : templateReference? entries <;> cases hfound' : templateReference? entries' <;>
    rw [hfound, hfound'] at hreference
  case none.none => exact hplain
  case some.some r r' =>
    obtain ⟨hpath, hrest⟩ := Prod.mk.inj (Option.some.inj hreference)
    refine (retraces_expectNonEmpty hpath _).then fun path => ?_
    exact (retraces_of_bare templateParameters_bare hrest).bind fun _ _ => hfollow path _ _
  all_goals cases hreference

theorem retraces_jobsOfItem (h : Retraced c.limits.maxFiles refs refs') (ht : t.bare = t'.bare) :
    Retraces c.limits.maxFiles (List.map Job.bare) (jobsOfItem refs c t) (jobsOfItem refs' c t') := by
  refine (retraces_expectMapping ht _).bind fun entries entries' hentries => ?_
  refine retraces_templateOr hentries (fun path _ _ => h.jobs rfl path) ?_
  exact (retraces_job h ht false).map fun j j' hj => congrArg ([·]) hj

theorem retraces_jobList (h : Retraced c.limits.maxFiles refs refs') (ht : t.bare = t'.bare) :
    Retraces c.limits.maxFiles (List.map Job.bare) (jobList refs c t) (jobList refs' c t') := by
  unfold jobList
  rw [isNull_eq_of_bare ht]
  split
  · exact retraces_pure rfl
  · exact (retraces_expectSequence ht _).bind fun _ _ hitems =>
      .collects (collects_jobsOfItems refs c) (collects_jobsOfItems refs' c)
        (fun _ _ ht => retraces_jobsOfItem h ht) hitems

/-! ### Stages -/

theorem retraces_readStage (h : Retraced c.limits.maxFiles refs refs') {s s' : Stage}
    (hs : s.bare = s'.bare) (he : bareEntry e = bareEntry e') :
    Retraces c.limits.maxFiles Stage.bare (s.read refs c e) (s'.read refs' c e') := by
  have hvalue := value_eq_of_bare he
  unfold Stage.read
  rw [name_eq_of_bare he]
  split
  · refine (retraces_addVariables h [] hvalue).then fun vars => retraces_pure ?_
    have hset (s : Stage) :
        { s with vars := some vars }.bare = { s.bare with vars := some vars } := rfl
    rw [hset, hset, hs]
  · refine (retraces_jobList h hvalue).map fun jobs jobs' hjobs => ?_
    have hset (s : Stage) (jobs : List Job) :
        { s with jobs := some jobs }.bare = { s.bare with jobs := some (jobs.map Job.bare) } := rfl
    rw [hset, hset, hs, hjobs]
  · refine retraces_ofExcept ?_
    rw [← Stage.readPlain_bare, ← Stage.readPlain_bare, hs, he]

theorem retraces_stage (h : Retraced c.limits.maxFiles refs refs') (ht : t.bare = t'.bare)
    (implicit : Bool) :
    Retraces c.limits.maxFiles Stage.bare (Stage.ofToken? refs c t implicit)
      (Stage.ofToken? refs' c t' implicit) := by
  refine (retraces_expectMapping ht _).bind fun entries entries' hentries => ?_
  have hfirst : firstKey? entries = firstKey? entries' := by
    rw [← firstKey?_bare, hentries, firstKey?_bare]
  rw [hfirst]
  split
  · exact retraces_throw _ _
  · exact retraces_entries (fun _ _ _ _ hs he => retraces_readStage h hs he) hentries rfl

theorem retraces_stagesOfItem (h : Retraced c.limits.maxFiles refs refs') (ht : t.bare = t'.bare) :
    Retraces c.limits.maxFiles (List.map Stage.bare) (stagesOfItem refs c t)
      (stagesOfItem refs' c t') := by
  refine (retraces_expectMapping ht _).bind fun entries entries' hentries => ?_
  refine retraces_templateOr hentries (fun path _ _ => h.stages rfl path) ?_
  exact (retraces_stage h ht false).map fun s s' hs => congrArg ([·]) hs

theorem retraces_stageList (h : Retraced c.limits.maxFiles refs refs') (ht : t.bare = t'.bare) :
    Retraces c.limits.maxFiles (List.map Stage.bare) (stageList refs c t) (stageList refs' c t') := by
  unfold stageList
  rw [isNull_eq_of_bare ht]
  split
  · exact retraces_pure rfl
  · exact (retraces_expectSequence ht _).bind fun _ _ hitems =>
      .collects (collects_stagesOfItems refs c) (collects_stagesOfItems refs' c)
        (fun _ _ ht => retraces_stagesOfItem h ht) hitems

/-! ### Parameters -/

/-- What refuses or makes a token is done again with tokens that look the same. -/
theorem retraces_requireDeployment (ht : t.bare = t'.bare) {j j' : Job} (hj : j.bare = j'.bare) :
    Retraces maximum id (Resolve.ofExcept (requireDeployment t j))
      (Resolve.ofExcept (requireDeployment t' j')) := by
  refine retraces_ofExcept ?_
  rw [← requireDeployment_bare, ht, hj, requireDeployment_bare]

theorem retraces_convertScalar (ht : t.bare = t'.bare) (zero : Token) (kind : String) :
    Retraces maximum Token.bare (Resolve.ofExcept (convertScalar t zero kind))
      (Resolve.ofExcept (convertScalar t' zero kind)) := by
  refine retraces_ofExcept ?_
  rw [← convertScalar_bare, ← convertScalar_bare, ht]

theorem retraces_convertTo (h : Retraced c.limits.maxFiles refs refs') (ht : t.bare = t'.bare)
    (type : ParameterType) :
    Retraces c.limits.maxFiles Token.bare (convertTo refs c t type) (convertTo refs' c t' type) := by
  have hnull : t.isNull = t'.isNull := isNull_eq_of_bare ht
  have hjobs {jobs jobs' : List Job} (hjobs : jobs.map Job.bare = jobs'.map Job.bare) :
      (jobsToken jobs).bare = (jobsToken jobs').bare := by
    rw [bare_jobsToken, bare_jobsToken, hjobs]
  cases type with
  | object => exact retraces_pure ht
  | boolean => exact retraces_convertScalar ht _ _
  | number => exact retraces_convertScalar ht _ _
  | string => exact retraces_convertScalar ht _ _
  | step =>
      dsimp only [convertTo]
      rw [hnull]
      split
      · exact retraces_pure rfl
      · refine (retraces_stepsOfItem h ht).then fun steps => ?_
        split <;> exact retraces_pure rfl
  | stepList => exact (retraces_stepList h ht).then fun steps => retraces_pure rfl
  | job =>
      dsimp only [convertTo]
      rw [hnull]
      split
      · exact retraces_pure rfl
      · refine (retraces_job h ht false).map fun j j' hj => ?_
        rw [Job.bare_toToken, Job.bare_toToken, hj]
  | jobList => exact (retraces_jobList h ht).map fun _ _ => hjobs
  | deployment =>
      dsimp only [convertTo]
      rw [hnull]
      split
      · exact retraces_pure rfl
      · refine (retraces_job h ht false).bind fun j j' hj => ?_
        refine (retraces_requireDeployment ht hj).then fun _ => retraces_pure ?_
        rw [Job.bare_toToken, Job.bare_toToken, hj]
  | deploymentList =>
      refine (retraces_jobList h ht).bind fun jobs jobs' hall => ?_
      refine Retraces.then (Retraces.forM (fun j j' hj => ?_) hall) fun _ => retraces_pure (hjobs hall)
      exact retraces_requireDeployment ht hj
  | stage =>
      dsimp only [convertTo]
      rw [hnull]
      split
      · exact retraces_pure rfl
      · refine (retraces_stage h ht false).map fun s s' hs => ?_
        rw [Stage.bare_toToken, Stage.bare_toToken, hs]
  | stageList =>
      refine (retraces_stageList h ht).map fun stages stages' hstages => ?_
      rw [bare_stagesToken, bare_stagesToken, hstages]

theorem retraces_convert (h : Retraced c.limits.maxFiles refs refs') (ht : t.bare = t'.bare)
    (type : String) :
    Retraces c.limits.maxFiles Token.bare (convert refs c t type) (convert refs' c t' type) := by
  unfold convert
  split
  · exact retraces_pure ht
  · refine (retraces_convertTo h ht _).map fun value value' hvalue => ?_
    rw [Token.bare_locatedAt, Token.bare_locatedAt, hvalue, ht]
  · exact retraces_throw _ _

/-- A bound parameter without the numbers of files. -/
def bareBinding (b : String × Token) : String × Token := (b.1, b.2.bare)

theorem retraces_bindDeclared (h : Retraced c.limits.maxFiles refs refs')
    (hprovided : entries.map bareEntry = entries'.map bareEntry) (ht : t.bare = t'.bare) :
    Retraces c.limits.maxFiles bareBinding (bindDeclared refs c entries t)
      (bindDeclared refs' c entries' t') := by
  have hparameter : (fun r : String × Parameter => (r.1, r.2.bare)) <$> Parameter.ofToken? t =
      (fun r : String × Parameter => (r.1, r.2.bare)) <$> Parameter.ofToken? t' := by
    rw [← Parameter.ofToken?_bare, ← Parameter.ofToken?_bare, ht]
  refine (retraces_ofExcept hparameter).bind ?_
  rintro ⟨name, p⟩ ⟨name', p'⟩ hp
  obtain ⟨rfl, hp⟩ := Prod.mk.inj hp
  have htype : p.type = p'.type := (congrArg Parameter.type hp :)
  have hdefault : p.default.bare = p'.default.bare := (congrArg Parameter.default hp :)
  have hcheck {value value' : Token} (hvalue : value.bare = value'.bare) :
      Retraces c.limits.maxFiles bareBinding
        (Resolve.ofExcept (p.check name value) >>= fun _ => pure (name, value))
        (Resolve.ofExcept (p'.check name value') >>= fun _ => pure (name, value')) := by
    have hsame : p.check name value = p'.check name value' := by
      rw [← Parameter.check_bare, hp, hvalue, Parameter.check_bare]
    rw [hsame]
    exact (retraces_ofExcept_self _).map fun _ _ _ => congrArg (name, ·) hvalue
  have hgiven : (provided? entries name).map Token.bare = (provided? entries' name).map Token.bare := by
    rw [← provided?_bare, hprovided, provided?_bare]
  dsimp only
  rw [← htype]
  refine (retraces_convert h hdefault p.type).bind fun default default' hdefault => ?_
  cases hfound : provided? entries name with
  | none =>
      rw [hfound] at hgiven
      rw [Option.map_eq_none_iff.mp hgiven.symm]
      exact (retraces_pure hdefault).bind fun _ _ hvalue => hcheck hvalue
  | some given =>
      rw [hfound] at hgiven
      obtain ⟨given', hfound', hgiven⟩ := Option.map_eq_some_iff.mp hgiven.symm
      rw [hfound']
      exact (retraces_convert h hgiven.symm p.type).bind fun _ _ hvalue => hcheck hvalue

theorem retraces_bindAll (h : Retraced c.limits.maxFiles refs refs')
    (hprovided : entries.map bareEntry = entries'.map bareEntry) {items items' : List Token}
    (hitems : items.map Token.bare = items'.map Token.bare) :
    Retraces c.limits.maxFiles (List.map bareBinding) (bindAll refs c entries items)
      (bindAll refs' c entries' items') := by
  induction items generalizing items' with
  | nil =>
      obtain rfl := List.map_eq_nil_iff.mp hitems.symm
      exact retraces_pure rfl
  | cons t rest ih =>
      obtain ⟨t', rest', rfl, ht, hrest⟩ := List.map_eq_cons_iff.mp hitems.symm
      refine (retraces_bindDeclared h hprovided ht.symm).bind fun own own' hown => ?_
      refine (ih hrest.symm).map fun others others' hothers => ?_
      rw [List.map_cons, List.map_cons, hown, hothers]

theorem retraces_bindDeclaration (h : Retraced c.limits.maxFiles refs refs')
    (hprovided : entries.map bareEntry = entries'.map bareEntry) {declared declared' : Option Token}
    (hdeclared : declared.map Token.bare = declared'.map Token.bare) :
    Retraces c.limits.maxFiles (List.map bareBinding) (bindDeclaration refs c entries declared)
      (bindDeclaration refs' c entries' declared') := by
  have hsequence {t t' : Token} (ht : t.bare = t'.bare) :
      Retraces c.limits.maxFiles (List.map bareBinding)
        (do bindAll refs c entries (← Resolve.ofExcept (t.expectSequence "parameters")))
        (do bindAll refs' c entries' (← Resolve.ofExcept (t'.expectSequence "parameters"))) :=
    (retraces_expectSequence ht _).bind fun _ _ hitems => retraces_bindAll h hprovided hitems
  cases declared with
  | none =>
      obtain rfl : declared' = none := Option.map_eq_none_iff.mp hdeclared.symm
      exact retraces_pure rfl
  | some t =>
      obtain ⟨t', rfl, ht⟩ := Option.map_eq_some_iff.mp hdeclared.symm
      cases t <;> cases t' <;> first | cases ht | skip
      case null.null => exact retraces_pure rfl
      case mapping.mapping o own o' own' =>
        rw [Token.bare_mapping, Token.bare_mapping] at ht
        have hown : own.map bareEntry = own'.map bareEntry := (Token.mapping.inj ht).2.symm
        have hbind (provided own : List Entry) : (own.map (bindEntry provided)).map bareBinding =
            (own.map bareEntry).map (bindEntry (provided.map bareEntry)) := by
          simp [bareBinding, Function.comp_def]
        refine retraces_pure ?_
        rw [hbind, hbind, hprovided, hown]
      all_goals exact hsequence ht.symm

theorem retraces_bindParameters (h : Retraced c.limits.maxFiles refs refs')
    {declared declared' values values' : Option Token}
    (hdeclared : declared.map Token.bare = declared'.map Token.bare)
    (hvalues : values.map Token.bare = values'.map Token.bare) :
    Retraces c.limits.maxFiles Token.bare (bindParameters refs c declared values)
      (bindParameters refs' c declared' values') := by
  have hprovided : List.map bareEntry <$> providedOf values =
      List.map bareEntry <$> providedOf values' := by
    rw [← providedOf_bare, ← providedOf_bare, hvalues]
  rw [bindParameters_eq, bindParameters_eq]
  refine (retraces_ofExcept hprovided).bind fun provided provided' hprovided => ?_
  refine (retraces_bindDeclaration h hprovided hdeclared).bind fun bound bound' hbound => ?_
  refine retraces_ofExcept ?_
  have hsettle (provided : List Entry) (bound : List (String × Token)) :
      settle (provided.map bareEntry) (bound.map bareBinding) = Token.bare <$> settle provided bound :=
    settle_bare provided bound
  rw [← hsettle, ← hsettle, hprovided, hbound]

/-! ### Templates -/

theorem retraces_openTemplate (c : Context) (path : String) :
    Retraces c.limits.maxFiles (fun opened => (opened.1.bare, opened.2)) (openTemplate c path)
      (openTemplate c path) := by
  refine Retraces.inFile ?_ _ _
  refine (retraces_readFile _ _ _).then fun content => ?_
  refine (retraces_charged_self _ _).then fun charge => ?_
  refine (retraces_addFile rfl _ _).bind fun file file' _ => ?_
  refine (retraces_ofExcept (Template.bare_ofText? (some file) (some file') content)).map ?_
  intro root root' hroot
  rw [hroot]

theorem retraces_fillTemplate (h : Retraced c.limits.maxFiles refs refs')
    {parameters parameters' : Option Token}
    (hparameters : parameters.map Token.bare = parameters'.map Token.bare) (definition : String)
    {root root' : Token} (hroot : root.bare = root'.bare) (usage : Usage) :
    Retraces c.limits.maxFiles (fun filled => (filled.1.bare, filled.2))
      (fillTemplate refs c parameters definition (root, usage))
      (fillTemplate refs' c parameters' definition (root', usage)) := by
  have hget (key : String) : (root.get? key).map Token.bare = (root'.get? key).map Token.bare := by
    rw [← Token.get?_bare, hroot, Token.get?_bare]
  have hvalid : c.schema.validate definition root = c.schema.validate definition root' := by
    rw [← Template.Schema.validate_bare, hroot, Template.Schema.validate_bare]
  have hvisible : visibleVariables c (root.get? "variables") =
      visibleVariables c (root'.get? "variables") := by
    rw [← visibleVariables_bare, hget, visibleVariables_bare]
  have hbody : (withoutParameters root).bare = (withoutParameters root').bare := by
    rw [← withoutParameters_bare, hroot, withoutParameters_bare]
  dsimp only [fillTemplate]
  rw [hvalid, hvisible]
  refine (retraces_ofExcept_self _).then fun _ => ?_
  refine (retraces_bindParameters h (hget _) hparameters).bind fun bound bound' hbound => ?_
  refine (retraces_ofExcept_self _).then fun vars => ?_
  refine Template.Resolve.retraces_charged_evaluate _ hbody ?_ usage
  simp [hbound]

/-- A template that was read, without the numbers of files. -/
def Loaded.bare (loaded : Loaded) : Loaded := { loaded with token := loaded.token.bare }

/-- What is done with a template is done again. -/
theorem retraces_withTemplate (h : Retraced c.limits.maxFiles refs refs') (reference : String)
    {parameters parameters' : Option Token}
    (hparameters : parameters.map Token.bare = parameters'.map Token.bare) (definition : String)
    {f g : Loaded → Resolve α}
    (hf : ∀ loaded loaded' : Loaded, loaded.bare = loaded'.bare →
      loaded.context.limits = c.limits → Retraces c.limits.maxFiles view (f loaded) (g loaded')) :
    Retraces c.limits.maxFiles view (readTemplate refs c reference parameters definition >>= f)
      (readTemplate refs' c reference parameters' definition >>= g) := by
  simp only [readTemplate, bind_assoc, pure_bind]
  refine (retraces_ofExcept_self _).then ?_
  rintro ⟨path, repository⟩
  refine (retraces_note _).then fun _ => ?_
  have hload (refs : References) (parameters : Option Token) :
      Resolve.inFile (Template.displayName path repository)
          (loadTemplate refs (c.child path repository) path parameters definition) =
        openTemplate (c.child path repository) path >>= fun opened =>
          Resolve.inFile (Template.displayName path repository)
            (fillTemplate refs (c.child path repository) parameters definition opened) :=
    inFile_loadTemplate refs (c.child path repository) path parameters definition
  simp only [hload, bind_assoc]
  refine (retraces_openTemplate (c.child path repository) path).bind ?_
  rintro ⟨root, usage⟩ ⟨root', usage'⟩ hopened
  obtain ⟨hroot, rfl⟩ := Prod.mk.inj hopened
  have hfill := retraces_fillTemplate (c := c.child path repository) h hparameters definition hroot usage
  refine (hfill.inFile _ _).bind ?_
  rintro ⟨token, usage⟩ ⟨token', usage'⟩ hfilled
  obtain ⟨htoken, rfl⟩ := Prod.mk.inj hfilled
  refine hf _ _ ?_ rfl
  exact (congrArg (Loaded.mk · (c.child path repository) (Template.displayName path repository) usage)
    htoken :)

/-- **A template is read again**, if under another number. -/
theorem retraces_readTemplate (h : Retraced c.limits.maxFiles refs refs') (reference : String)
    {parameters parameters' : Option Token}
    (hparameters : parameters.map Token.bare = parameters'.map Token.bare) (definition : String) :
    Retraces c.limits.maxFiles Loaded.bare (readTemplate refs c reference parameters definition)
      (readTemplate refs' c reference parameters' definition) := by
  have hread := retraces_withTemplate (f := pure) (g := pure) h reference hparameters definition
    fun _ _ hloaded _ => retraces_pure hloaded
  rwa [bind_pure, bind_pure] at hread

/-- A section of a template is composed again in the context of the template. -/
theorem retraces_withSection (h : Retraced c.limits.maxFiles refs refs') (reference : String)
    {parameters parameters' : Option Token}
    (hparameters : parameters.map Token.bare = parameters'.map Token.bare) (definition key : String)
    (absent : α) {compose compose' : Loaded → Context → Token → Resolve α}
    (hcompose : ∀ {c : Context}, Retraced c.limits.maxFiles refs refs' →
      ∀ (loaded loaded' : Loaded) {t t' : Token}, t.bare = t'.bare →
        Retraces c.limits.maxFiles view (compose loaded c t) (compose' loaded' c t')) :
    Retraces c.limits.maxFiles view
      (do
        let loaded ← readTemplate refs c reference parameters definition
        withSection loaded key absent (compose loaded))
      (do
        let loaded ← readTemplate refs' c reference parameters' definition
        withSection loaded key absent (compose' loaded)) := by
  refine retraces_withTemplate h reference hparameters definition fun loaded loaded' hloaded hlimits => ?_
  have hcontext : loaded.context = loaded'.context := (congrArg Loaded.context hloaded :)
  have htoken : loaded.token.bare = loaded'.token.bare := (congrArg Loaded.token hloaded :)
  have hget : (loaded.token.get? key).map Token.bare = (loaded'.token.get? key).map Token.bare := by
    rw [← Token.get?_bare, htoken, Token.get?_bare]
  unfold withSection
  rw [← hcontext]
  rw [← hlimits] at h ⊢
  cases hfound : loaded.token.get? key with
  | none =>
      rw [hfound] at hget
      rw [Option.map_eq_none_iff.mp hget.symm]
      exact retraces_pure rfl
  | some t =>
      rw [hfound] at hget
      obtain ⟨t', hfound', ht⟩ := Option.map_eq_some_iff.mp hget.symm
      rw [hfound']
      exact hcompose h loaded loaded' ht.symm

theorem retraced_none (maximum : Nat) (refs : References) : Retraced maximum .none refs where
  steps _ _ _ _ _ := retraces_unfinished _
  jobs _ _ _ _ _ := retraces_unfinished _
  stages _ _ _ _ _ := retraces_unfinished _
  vars _ _ _ _ _ _ := retraces_unfinished _

/-- **What references yield they yield again**, also where they may lead deeper. -/
theorem retraced_references (maximum n depth : Nat) :
    Retraced maximum (references n) (references (n + depth)) := by
  induction n with
  | zero => exact retraced_none maximum _
  | succ n ih =>
      rw [Nat.succ_add]
      -- What a template refers to is a level deeper than the reference to it, so `ih` applies there.
      exact {
        steps := fun hc reference _ _ hparameters => hc ▸
          retraces_withSection (hc ▸ ih) reference hparameters _ _ _ fun ih _ _ _ _ ht =>
            (retraces_expectSequence ht _).bind fun _ _ hitems =>
              (retraces_stepsOfItems ih hitems).inFile _ _
        jobs := fun hc reference _ _ hparameters => hc ▸
          retraces_withSection (hc ▸ ih) reference hparameters _ _ _ fun ih _ _ _ _ ht =>
            (retraces_jobList ih ht).inFile _ _
        stages := fun hc reference _ _ hparameters => hc ▸
          retraces_withSection (hc ▸ ih) reference hparameters _ _ _ fun ih _ _ _ _ ht =>
            (retraces_stageList ih ht).inFile _ _
        vars := fun hc vars reference _ _ hparameters => hc ▸
          retraces_withSection (hc ▸ ih) reference hparameters _ _ _ fun ih _ _ _ _ ht =>
            (retraces_addVariables ih vars ht).inFile _ _ }

/-! ### Roots -/

/-- Drafts that look the same do so when an entry is left over. -/
theorem Draft.bare_leave {d d' : Draft} (hd : d.bare = d'.bare) (he : bareEntry e = bareEntry e')
    (i : Implicit) : ({ d with left := d.left ++ [e], implicit := i } : Draft).bare =
      ({ d' with left := d'.left ++ [e'], implicit := i } : Draft).bare := by
  have hleft : d.left.map bareEntry = d'.left.map bareEntry := (congrArg Draft.left hd :)
  have hentries : (d.left ++ [e]).map bareEntry = (d'.left ++ [e']).map bareEntry := by
    rw [List.map_append, List.map_append, hleft, List.map_singleton, List.map_singleton, he]
  have hbare : ({ d.bare with left := (d.left ++ [e]).map bareEntry, implicit := i } : Draft) =
      { d'.bare with left := (d'.left ++ [e']).map bareEntry, implicit := i } := by
    rw [hd, hentries]
  exact hbare

/-- Drafts that look the same do so with pipelines that look the same. -/
theorem Draft.bare_setPipeline {d d' : Draft} (hd : d.bare = d'.bare) {p p' : Pipeline}
    (hp : p.bare = p'.bare) :
    ({ d with pipeline := p } : Draft).bare = ({ d' with pipeline := p' } : Draft).bare := by
  have hbare : ({ d.bare with pipeline := p.bare } : Draft) = { d'.bare with pipeline := p'.bare } := by
    rw [hd, hp]
  exact hbare

/-- An entry of a root that extends nothing is read again. -/
theorem retraces_readDraft (h : Retraced c.limits.maxFiles refs refs') {d d' : Draft}
    (hd : d.bare = d'.bare) (he : bareEntry e = bareEntry e') (hextends : e.1.name ≠ "extends") :
    Retraces c.limits.maxFiles Draft.bare (d.read refs c e) (d'.read refs' c e') := by
  have hleave := Draft.bare_leave hd he
  obtain ⟨⟨o, name⟩, value⟩ := e
  obtain ⟨⟨o', name'⟩, value'⟩ := e'
  obtain rfl : name = name' := name_eq_of_bare he
  have hvalue : value.bare = value'.bare := value_eq_of_bare he
  have hpipeline : d.pipeline.bare = d'.pipeline.bare := (congrArg Draft.pipeline hd :)
  have himplicit : d.implicit = d'.implicit := (congrArg Draft.implicit hd :)
  have hset {p p' : Pipeline} (hp : p.bare = p'.bare) := Draft.bare_setPipeline hd hp
  dsimp only [Draft.read]
  split
  · refine Retraces.then (retraces_of_same (f := (nameOf? · "name")) (nameOf?_bare · _) hvalue)
      fun name => retraces_pure (hset ?_)
    exact (congrArg (fun p : Pipeline => { p with name := name }) hpipeline :)
  · exact retraces_pure hd
  · refine (retraces_addVariables h [] hvalue).then fun vars => retraces_pure (hset ?_)
    exact (congrArg (fun p : Pipeline => { p with vars := some vars }) hpipeline :)
  · exact absurd rfl hextends
  · refine (retraces_stageList h hvalue).map fun stages stages' hstages => hset ?_
    have hbare (p : Pipeline) (stages : List Stage) : { p with stages := some stages }.bare =
        { p.bare with stages := some (stages.map Stage.bare) } := rfl
    rw [hbare, hbare, hpipeline, hstages]
  · exact retraces_pure (hleave _)
  · rw [himplicit]
    exact retraces_pure (hleave _)
  · refine (retraces_of_bare Resources.ofToken?_bare hvalue).map fun r r' hr => hset ?_
    have hbare (p : Pipeline) (r : Resources) : { p with resources := some r }.bare =
        { p.bare with resources := some r.bare } := rfl
    rw [hbare, hbare, hpipeline, hr]
  · refine (retraces_of_same Pool.ofToken?_bare hvalue).then fun pool => retraces_pure (hset ?_)
    exact (congrArg (fun p : Pipeline => { p with pool := some pool }) hpipeline :)
  · refine (retraces_of_same (f := (Token.expectBool · "appendCommitMessageToRunName"))
      (Token.expectBool_bare · _) hvalue).then fun append => retraces_pure (hset ?_)
    exact (congrArg (fun p : Pipeline => { p with appendCommitMessageToRunName := some append })
      hpipeline :)
  · refine (retraces_of_same (f := (Token.expectText · "lockBehavior"))
      (Token.expectText_bare · _) hvalue).then fun behavior => retraces_pure (hset ?_)
    exact (congrArg (fun p : Pipeline => { p with lockBehavior := some behavior }) hpipeline :)
  · refine retraces_pure (hset ?_)
    have hbare (p : Pipeline) (t : Token) : { p with trigger := some t }.bare =
        { p.bare with trigger := some t.bare } := rfl
    rw [hbare, hbare, hpipeline, hvalue]
  · refine retraces_pure (hset ?_)
    have hbare (p : Pipeline) (t : Token) : { p with pr := some t }.bare =
        { p.bare with pr := some t.bare } := rfl
    rw [hbare, hbare, hpipeline, hvalue]
  · refine retraces_pure (hset ?_)
    have hbare (p : Pipeline) (t : Token) : { p with schedules := some t }.bare =
        { p.bare with schedules := some t.bare } := rfl
    rw [hbare, hbare, hpipeline, hvalue]
  · rw [himplicit]
    exact retraces_pure (hleave _)

end PipelineExpansion.Pipeline
