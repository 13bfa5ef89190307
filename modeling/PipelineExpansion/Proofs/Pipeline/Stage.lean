import PipelineExpansion.Pipeline.Stage
import PipelineExpansion.Proofs.Pipeline.Job

/-!
# Stages are read back from their tokens

Of a stage, all is read back but what is not kept of its jobs.

## Main results

* `yields_stageList`: stages that have been read are sound.
* `Stage.ofToken?_toToken`: of a sound stage, what is kept is read back from its token.
* `Stage.toToken_kept`: it is written as the stage was.
-/

namespace PipelineExpansion.Pipeline

open Template (Context Entry Key Resolve Token)
open Template.Resolve

variable {tasks : Option Task.Catalog} {refs : References} {c : Context} {t : Token}

/-! ### What holds of stages that have been read -/

/-- What holds of every stage that has been read where these tasks are known. -/
structure Stage.Sound (tasks : Option Task.Catalog) (s : Stage) : Prop where
  vars : ∀ vars ∈ s.vars, SoundVariables vars
  jobs : ∀ jobs ∈ s.jobs, ∀ j ∈ jobs, j.Sound tasks
  templateContext : ∀ t ∈ s.templateContext, textual t = t

theorem Stage.ensures_readPlain {s : Stage} (h : s.Sound tasks) (e : Entry) :
    Ensures (s.readPlain e) (Sound tasks) := by
  obtain ⟨key, value⟩ := e
  unfold Stage.readPlain
  simp only
  split
  case h_7 =>
    exact ensures_ok { h with templateContext := by rintro _ ⟨⟩; exact textual_textual value }
  case h_8 => exact ensures_error _ _
  all_goals
    refine ensures_bind_of_forall fun _ => ?_
    exact ensures_pure { h with }

theorem yields_stageRead (hrefs : refs.SoundParts) {s : Stage} (h : s.Sound c.tasks) (e : Entry) :
    Yields (Stage.read refs c s e) (Stage.Sound c.tasks) := by
  unfold Stage.read
  split
  · refine (yields_addVariables hrefs.vars c soundVariables_nil e.2).bind fun vars hvars => ?_
    exact yields_pure { h with vars := by rintro _ ⟨⟩; exact hvars }
  · refine (yields_jobList hrefs c e.2).bind fun jobs hjobs => ?_
    exact yields_pure { h with jobs := by rintro _ ⟨⟩; exact hjobs }
  · exact yields_ofExcept (Stage.ensures_readPlain h e)

theorem Stage.sound_new : ({} : Stage).Sound tasks := by
  constructor <;> rintro _ ⟨⟩

theorem yields_stage (hrefs : refs.SoundParts) (c : Context) (t : Token) (implicit : Bool) :
    Yields (Stage.ofToken? refs c t implicit) (Stage.Sound c.tasks) := by
  unfold Stage.ofToken?
  refine yields_bind_of_forall fun entries => ?_
  split
  · exact yields_throw _ _
  · exact yields_foldlM (fun _ e h => yields_stageRead hrefs h e) Stage.sound_new entries

/-- What references lead to is sound. -/
structure References.Sound (refs : References) : Prop extends refs.SoundParts where
  stages : ∀ c path parameters,
    Yields (refs.stages c path parameters) fun ss => ∀ s ∈ ss, s.Sound c.tasks

theorem yields_stagesOfItem (hrefs : refs.Sound) (c : Context) (t : Token) :
    Yields (stagesOfItem refs c t) fun ss => ∀ s ∈ ss, s.Sound c.tasks := by
  unfold stagesOfItem
  refine yields_bind_of_forall fun entries => ?_
  split
  · refine yields_bind_of_forall fun path => ?_
    refine yields_bind_of_forall fun parameters => ?_
    exact hrefs.stages c path parameters
  · refine (yields_stage hrefs.toSoundParts c t false).bind fun s hs => ?_
    exact yields_pure (List.forall_mem_singleton.mpr hs)

theorem collects_stagesOfItems (refs : References) (c : Context) :
    Collects (stagesOfItem refs c) (stagesOfItems refs c) :=
  ⟨rfl, fun _ _ => rfl⟩

/-- **Stages that have been read are sound.** -/
theorem yields_stageList (hrefs : refs.Sound) (c : Context) (t : Token) :
    Yields (stageList refs c t) fun ss => ∀ s ∈ ss, s.Sound c.tasks := by
  unfold stageList
  split
  · exact yields_pure (List.forall_mem_nil _)
  · refine yields_bind_of_forall fun items => ?_
    exact (collects_stagesOfItems refs c).yields (yields_stagesOfItem hrefs c) items

/-! ### What is kept of a stage -/

/-- A stage as far as its token goes. -/
def Stage.kept (s : Stage) : Stage := { s with jobs := s.jobs.map fun jobs => jobs.map Job.kept }

/-- **What is kept of a stage is written as the stage was.** -/
theorem Stage.toToken_kept (s : Stage) : s.kept.toToken = s.toToken := by
  have hjobs : field "jobs" jobsToken (s.jobs.map fun jobs => jobs.map Job.kept)
      = field "jobs" jobsToken s.jobs := by
    cases s.jobs with
    | none => rfl
    | some jobs => exact congrArg (fun t => [("jobs", t)]) (jobsToken_kept jobs)
  simp only [toToken, kept, hjobs]

/-- All is kept of a stage of whose jobs all is kept. -/
theorem Stage.kept_eq_self_iff (s : Stage) :
    s.kept = s ↔ ∀ jobs ∈ s.jobs, ∀ j ∈ jobs, j.kept = j := by
  have hjobs : s.kept = s ↔ (s.jobs.map fun jobs => jobs.map Job.kept) = s.jobs :=
    ⟨congrArg Stage.jobs, fun h => by rw [kept, h]⟩
  rw [hjobs]
  cases s.jobs with
  | none => simp
  | some jobs =>
      have hmap := List.map_inj_left (l := jobs) (f := Job.kept) (g := id)
      simpa using hmap

/-! ### Stages are read back -/

theorem Stage.readPlain_templateContext (s : Stage) (h : textual t = t) :
    s.readPlain (madeEntry ("templateContext", t)) = .ok { s with templateContext := some t } := by
  change Except.ok { s with templateContext := some (textual t) } = _
  rw [h]

/-- The properties of a stage behind its name, as they are written. -/
def Stage.pairs (s : Stage) : List (String × Token) :=
  field "displayName" .ofText s.displayName
    ++ (field "dependsOn" textsToken s.dependsOn
    ++ (field "condition" .ofText s.condition
    ++ (field "variables" variablesToken s.vars
    ++ (field "jobs" jobsToken s.jobs
    ++ (field "pool" Pool.toToken s.pool
    ++ (field "lockBehavior" .ofText s.lockBehavior
    ++ field "templateContext" id s.templateContext))))))

theorem Stage.entries?_toToken (s : Stage) :
    s.toToken.entries?
      = some (madeEntry ("stage", nameToken s.name) :: s.pairs.map madeEntry) := by
  rw [toToken, entries?_ofPairs]
  simp only [List.append_assoc, List.map_cons, List.cons_append, List.nil_append, pairs]

theorem Stage.leads_pairs {s : Stage} (h : s.Sound tasks) (hc : c.tasks = tasks) :
    Leads (Stage.read refs c) { name := s.name } s.pairs s.kept := by
  refine Leads.append
    (leads_field (fun a o => { a with displayName := o }) rfl (fun _ _ => rfl) rfl) ?_
  refine Leads.append (leads_field (fun a o => { a with dependsOn := o }) rfl
    (fun names _ => congrArg Resolve.ofExcept
      (bind_of_eq_pure (expectTexts_textsToken names _) _)) rfl) ?_
  refine Leads.append
    (leads_field (fun a o => { a with condition := o }) rfl (fun _ _ => rfl) rfl) ?_
  refine Leads.append (leads_field (fun a o => { a with vars := o }) rfl
    (fun vars hmem => bind_of_eq_pure (addVariables_variablesToken (h.vars vars hmem)) _) rfl) ?_
  refine Leads.append
    (leads_field (fun a o => { a with jobs := o.map fun jobs => jobs.map Job.kept }) rfl
      (fun jobs hmem => bind_of_eq_pure (jobList_jobsToken (h.jobs jobs hmem) hc rfl) _) rfl) ?_
  refine Leads.append (leads_field (fun a o => { a with pool := o }) rfl
    (fun pool _ => congrArg Resolve.ofExcept (bind_of_eq_pure pool.ofToken?_toToken _)) rfl) ?_
  refine Leads.append
    (leads_field (fun a o => { a with lockBehavior := o }) rfl (fun _ _ => rfl) rfl) ?_
  exact leads_field (fun a o => { a with templateContext := o }) rfl
    (fun t hmem => congrArg Resolve.ofExcept
      (readPlain_templateContext _ (h.templateContext t hmem))) rfl

/-- **Of a sound stage, what is kept is read back from its token**, whatever references may lead
to. -/
theorem Stage.ofToken?_toToken {s : Stage} (h : s.Sound tasks) (hc : c.tasks = tasks)
    (ht : t.entries? = s.toToken.entries?) : Stage.ofToken? refs c t false = pure s.kept := by
  rw [s.entries?_toToken] at ht
  have hname : Stage.read refs c {} (madeEntry ("stage", nameToken s.name))
      = pure { name := s.name } :=
    congrArg Resolve.ofExcept (bind_of_eq_pure (nameOf?_nameToken s.name "stage") _)
  rw [ofToken?, Token.expectMapping_eq _ ht]
  exact Leads.cons hname (s.leads_pairs h hc)

theorem stagesOfItem_toToken {s : Stage} (h : s.Sound tasks) (hc : c.tasks = tasks) :
    stagesOfItem refs c s.toToken = pure [s.kept] := by
  rw [stagesOfItem, Token.expectMapping_eq _ s.entries?_toToken]
  exact bind_of_eq_pure (Stage.ofToken?_toToken h hc rfl) _

/-- **Of sound stages, what is kept is read back from their token.** -/
theorem stageList_stagesToken {stages : List Stage} (h : ∀ s ∈ stages, s.Sound tasks)
    (hc : c.tasks = tasks) (ht : t.items? = (stagesToken stages).items?) :
    stageList refs c t = pure (stages.map Stage.kept) := by
  have hitems : t.items? = some (stages.map Stage.toToken) := ht
  rw [stageList, Token.isNull_eq_false_of_items? hitems, Token.expectSequence_eq _ hitems]
  exact (collects_stagesOfItems refs c).map_eq_pure Stage.kept fun s hs =>
    stagesOfItem_toToken (h s hs) hc

theorem stagesToken_kept (stages : List Stage) :
    stagesToken (stages.map Stage.kept) = stagesToken stages := by
  rw [stagesToken, stagesToken, List.map_map]
  exact congrArg Token.ofItems (List.map_congr_left fun s _ => s.toToken_kept)

end PipelineExpansion.Pipeline
