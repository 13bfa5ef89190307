import PipelineExpansion.Pipeline.Job
import PipelineExpansion.Proofs.Pipeline.Strategy
import PipelineExpansion.Proofs.Pipeline.Variables

/-!
# Jobs are read back from their tokens

The token of a job has the environment of a deployment only, and the steps of other jobs only; the
reader takes either from both. What is read back of a job is therefore what is kept of it
(`Job.kept`): all but the environment of a job that is no deployment, and all but the steps of a
deployment.

## Main results

* `yields_jobList`: jobs that have been read are sound.
* `Job.ofToken?_toToken`: of a sound job, what is kept is read back from its token.
* `Job.toToken_kept`: it is written as the job was.
-/

namespace PipelineExpansion.Pipeline

open Template (Context Entry Key Resolve Token)
open Template.Resolve

variable {tasks : Option Task.Catalog} {refs : References} {c : Context} {t : Token}

/-! ### Texts for scalars -/

mutual

/-- Once all scalars are texts, they stay as they are. -/
theorem textual_textual (t : Token) : textual (textual t) = textual t := by
  cases t with
  | sequence o items => exact congrArg (Token.sequence o) (textualItems_textualItems items)
  | mapping o entries => exact congrArg (Token.mapping o) (textualEntries_textualEntries entries)
  | _ => rfl

theorem textualItems_textualItems (items : List Token) :
    textualItems (textualItems items) = textualItems items := by
  cases items with
  | nil => rfl
  | cons t rest => exact congrArg₂ List.cons (textual_textual t) (textualItems_textualItems rest)

theorem textualEntries_textualEntries (entries : List (Key × Token)) :
    textualEntries (textualEntries entries) = textualEntries entries := by
  cases entries with
  | nil => rfl
  | cons e rest =>
      exact congrArg₂ List.cons (congrArg (Prod.mk e.1) (textual_textual e.2))
        (textualEntries_textualEntries rest)

end

/-! ### What holds of jobs that have been read -/

/-- What holds of a job that is being read, but for its strategy. -/
structure Job.SoundParts (tasks : Option Task.Catalog) (j : Job) : Prop where
  container : ∀ container ∈ j.container, container.Sound
  vars : ∀ vars ∈ j.vars, SoundVariables vars
  services : ∀ services ∈ j.services, services.Canonical ∧ ∀ e ∈ services, e.2.Sound
  steps : ∀ steps ∈ j.steps, ∀ s ∈ steps, s.Sound tasks
  templateContext : ∀ t ∈ j.templateContext, textual t = t

/-- What holds of every job that has been read where these tasks are known. -/
structure Job.Sound (tasks : Option Task.Catalog) (j : Job) : Prop extends j.SoundParts tasks where
  strategy : ∀ s ∈ j.strategy, s.Sound tasks j.deployment

/-- What references lead to from within jobs, and from lists of them, is sound. -/
structure References.SoundParts (refs : References) : Prop where
  steps : refs.SoundSteps
  vars : refs.SoundVars
  jobs : ∀ c path parameters,
    Yields (refs.jobs c path parameters) fun js => ∀ j ∈ js, j.Sound c.tasks

theorem ensures_addService {services : Dictionary Container}
    (h : services.Canonical ∧ ∀ e ∈ services, e.2.Sound) (e : Entry) :
    Ensures (addService services e) fun services =>
      services.Canonical ∧ ∀ e ∈ services, e.2.Sound := by
  refine (Container.ensures_ofToken? e.2).bind fun container hcontainer => ?_
  refine ensures_pure ⟨h.1.put, fun service hservice => ?_⟩
  rcases Dictionary.mem_put hservice with rfl | hmem
  · exact hcontainer
  · exact h.2 service hmem

/-- A property needs no strategy, and makes none. -/
theorem Job.ensures_readPlain {j : Job} (h : j.SoundParts tasks) (hstrategy : j.strategy = none)
    (e : Entry) :
    Ensures (j.readPlain e) fun j => j.SoundParts tasks ∧ j.strategy = none := by
  obtain ⟨key, value⟩ := e
  unfold Job.readPlain
  simp only
  split
  case h_7 =>
    refine (Container.ensures_ofToken? value).bind fun container hcontainer => ?_
    exact ensures_pure ⟨{ h with container := by rintro _ ⟨⟩; exact hcontainer }, hstrategy⟩
  case h_10 =>
    refine ensures_bind_of_forall fun entries => ?_
    refine (ensures_foldlM (fun _ e h => ensures_addService h e)
      ⟨Dictionary.canonical_nil, List.forall_mem_nil _⟩ entries).bind fun services hservices => ?_
    exact ensures_pure ⟨{ h with services := by rintro _ ⟨⟩; exact hservices }, hstrategy⟩
  case h_11 =>
    exact ensures_ok
      ⟨{ h with templateContext := by rintro _ ⟨⟩; exact textual_textual value }, hstrategy⟩
  case h_16 => exact ensures_error _ _
  all_goals
    refine ensures_bind_of_forall fun _ => ?_
    exact ensures_pure ⟨{ h with }, hstrategy⟩

/-- What holds of what has been read of a job so far. -/
structure JobDraft.Sound (tasks : Option Task.Catalog) (d : JobDraft) : Prop where
  parts : d.job.SoundParts tasks
  strategy : d.job.strategy = none

theorem yields_draft (hrefs : refs.SoundParts) {d : JobDraft}
    (h : d.Sound c.tasks) (e : Entry) :
    Yields (JobDraft.read refs c d e) (JobDraft.Sound c.tasks) := by
  unfold JobDraft.read
  split
  · exact yields_pure ⟨h.parts, h.strategy⟩
  · refine (yields_addVariables hrefs.vars c soundVariables_nil e.2).bind fun vars hvars => ?_
    exact yields_pure ⟨{ h.parts with vars := by rintro _ ⟨⟩; exact hvars }, h.strategy⟩
  · refine (yields_stepList hrefs.steps c e.2).bind fun steps hsteps => ?_
    exact yields_pure ⟨{ h.parts with steps := by rintro _ ⟨⟩; exact hsteps }, h.strategy⟩
  · refine (yields_ofExcept (d.job.ensures_readPlain h.parts h.strategy e)).bind fun j hj => ?_
    exact yields_pure ⟨hj.1, hj.2⟩

theorem Job.soundParts_new : ({} : Job).SoundParts tasks := by
  constructor <;> rintro _ ⟨⟩

theorem yields_job (hrefs : refs.SoundParts) (c : Context) (t : Token)
    (implicit : Bool) : Yields (Job.ofToken? refs c t implicit) (Job.Sound c.tasks) := by
  unfold Job.ofToken?
  refine yields_bind_of_forall fun entries => ?_
  split
  · exact yields_throw _ _
  · refine (yields_foldlM (fun _ e h => yields_draft hrefs h e)
      ⟨Job.soundParts_new, rfl⟩ entries).bind fun d hd => ?_
    split
    · exact yields_pure { hd.parts with strategy := by simp [hd.strategy] }
    · next strategy _ =>
      refine (yields_strategy hrefs.steps c strategy d.job.deployment).bind fun s hs => ?_
      exact yields_pure { hd.parts with strategy := by rintro _ ⟨⟩; exact hs }

theorem yields_jobsOfItem (hrefs : refs.SoundParts) (c : Context) (t : Token) :
    Yields (jobsOfItem refs c t) fun js => ∀ j ∈ js, j.Sound c.tasks := by
  unfold jobsOfItem
  refine yields_bind_of_forall fun entries => ?_
  split
  · refine yields_bind_of_forall fun path => ?_
    refine yields_bind_of_forall fun parameters => ?_
    exact hrefs.jobs c path parameters
  · refine (yields_job hrefs c t false).bind fun j hj => ?_
    exact yields_pure (List.forall_mem_singleton.mpr hj)

theorem collects_jobsOfItems (refs : References) (c : Context) :
    Collects (jobsOfItem refs c) (jobsOfItems refs c) :=
  ⟨rfl, fun _ _ => rfl⟩

/-- **Jobs that have been read are sound.** -/
theorem yields_jobList (hrefs : refs.SoundParts) (c : Context) (t : Token) :
    Yields (jobList refs c t) fun js => ∀ j ∈ js, j.Sound c.tasks := by
  unfold jobList
  split
  · exact yields_pure (List.forall_mem_nil _)
  · refine yields_bind_of_forall fun items => ?_
    exact (collects_jobsOfItems refs c).yields (yields_jobsOfItem hrefs c) items

/-! ### What is kept of a job -/

/-- A job as far as its token goes. -/
def Job.kept (j : Job) : Job :=
  { j with
    environment := if j.deployment then j.environment else none
    steps := if j.deployment then none else j.steps }

/-- **What is kept of a job is written as the job was.** -/
theorem Job.toToken_kept (j : Job) : j.kept.toToken = j.toToken := by
  cases h : j.deployment <;> simp [toToken, kept, h]

/-- Whether a job has nothing that its token would not have: a deployment no steps, another job no
environment. -/
def Job.Writable (j : Job) : Prop := if j.deployment then j.steps = none else j.environment = none

/-- **All is kept of a job that has nothing else.** -/
theorem Job.kept_eq_self_iff (j : Job) : j.kept = j ↔ j.Writable := by
  have hparts : j.kept = j ↔ (if j.deployment then none else j.steps) = j.steps ∧
      (if j.deployment then j.environment else none) = j.environment := by
    constructor
    · exact fun h => ⟨congrArg Job.steps h, congrArg Job.environment h⟩
    · rintro ⟨hsteps, henvironment⟩
      rw [kept, hsteps, henvironment]
  rw [hparts, Writable]
  cases j.deployment <;> simp [eq_comm]

/-! ### Jobs are read back -/

theorem Environment.ofToken?_toToken (e : Environment) :
    Environment.ofToken? e.toToken = .ok e := by
  obtain ⟨name, resourceType⟩ := e
  cases resourceType <;> rfl

theorem Uses.ofToken?_toToken (u : Uses) : Uses.ofToken? u.toToken = .ok u := by
  suffices Leads Uses.read {} _ u from this
  refine Leads.append (leads_field (fun a o => { a with repositories := o }) rfl
    (fun names _ => bind_of_eq_pure (expectTexts_textsToken names _) _) rfl) ?_
  exact leads_field (fun a o => { a with pools := o }) rfl
    (fun names _ => bind_of_eq_pure (expectTexts_textsToken names _) _) rfl

theorem nameOf?_nameToken (name : Option String) (what : String) :
    nameOf? (nameToken name) what = .ok name := by
  cases name <;> rfl

theorem addService_toToken (services : Dictionary Container) (name : String) {container : Container}
    (h : container.Sound) :
    addService services (madeEntry (name, container.toToken))
      = .ok (services.put name container) :=
  bind_of_eq_pure (Container.ofToken?_toToken h) _

/-- The properties of a job behind its name, as they are written. -/
def Job.pairs (j : Job) : List (String × Token) :=
  field "displayName" .ofText j.displayName
    ++ (field "condition" .ofText j.condition
    ++ (field "continueOnError" .ofText j.continueOnError
    ++ (field "timeoutInMinutes" .ofText j.timeoutInMinutes
    ++ (field "cancelTimeoutInMinutes" .ofText j.cancelTimeoutInMinutes
    ++ (field "container" Container.toToken j.container
    ++ (field "services" (fun services => .ofPairs (services.map fun (k, s) => (k, s.toToken)))
        j.services
    ++ (field "templateContext" id j.templateContext
    ++ (field "dependsOn" textsToken j.dependsOn
    ++ (field "strategy" Strategy.toToken j.strategy
    ++ (field "variables" variablesToken j.vars
    ++ ((if j.deployment then field "environment" Environment.toToken j.environment
        else field "steps" stepsToken j.steps)
    ++ (field "pool" Pool.toToken j.pool
    ++ (field "uses" Uses.toToken j.uses
    ++ field "workspace" (fun clean => .ofPairs [("clean", .ofText clean)])
        j.workspace)))))))))))))

/-- The key that a job begins with. -/
def Job.keyword (j : Job) : String := if j.deployment then "deployment" else "job"

theorem Job.entries?_toToken (j : Job) :
    j.toToken.entries?
      = some (madeEntry (j.keyword, nameToken j.name) :: j.pairs.map madeEntry) := by
  rw [toToken, entries?_ofPairs]
  simp only [List.append_assoc, List.map_cons, List.cons_append, List.nil_append, pairs, keyword]

theorem Job.leads_keyword (j : Job) :
    JobDraft.read refs c {} (madeEntry (j.keyword, nameToken j.name))
      = pure { job := { name := j.name, deployment := j.deployment } } := by
  unfold keyword
  cases hd : j.deployment
  · exact bind_of_eq_pure (congrArg Resolve.ofExcept
      (bind_of_eq_pure (nameOf?_nameToken j.name "job") _)) _
  · exact bind_of_eq_pure (congrArg Resolve.ofExcept
      (bind_of_eq_pure (nameOf?_nameToken j.name "deployment") _)) _

theorem Job.readPlain_templateContext (j : Job) (h : textual t = t) :
    j.readPlain (madeEntry ("templateContext", t)) = .ok { j with templateContext := some t } := by
  change Except.ok { j with templateContext := some (textual t) } = _
  rw [h]

/-- A job has either an environment or steps in its token. -/
theorem Job.leads_own {j : Job} (h : j.Sound tasks) (hc : c.tasks = tasks) (d : JobDraft)
    (henvironment : d.job.environment = none) (hsteps : d.job.steps = none) :
    Leads (JobDraft.read refs c) d
      (if j.deployment then field "environment" Environment.toToken j.environment
        else field "steps" stepsToken j.steps)
      { d with
        job := { d.job with environment := j.kept.environment, steps := j.kept.steps } } := by
  unfold kept
  cases j.deployment with
  | true =>
      refine leads_field (fun a o => { a with job := { a.job with environment := o } })
        (by rw [← henvironment]) (fun environment _ => ?_) (by rw [← hsteps]; rfl)
      exact bind_of_eq_pure (congrArg Resolve.ofExcept
        (bind_of_eq_pure environment.ofToken?_toToken _)) _
  | false =>
      refine leads_field (fun a o => { a with job := { a.job with steps := o } })
        (by rw [← hsteps]) (fun steps hmem => ?_) (by rw [← henvironment]; rfl)
      exact bind_of_eq_pure (stepList_stepsToken (h.steps steps hmem) hc rfl) _

theorem Job.leads_pairs {j : Job} (h : j.Sound tasks) (hc : c.tasks = tasks) :
    Leads (JobDraft.read refs c) { job := { name := j.name, deployment := j.deployment } } j.pairs
      { job := { j.kept with strategy := none }, strategy := j.strategy.map Strategy.toToken } := by
  have hplain {a b : Job} {e : Entry} (hread : a.readPlain e = .ok b) (strategy : Option Token) :
      (do return { job := ← Resolve.ofExcept (a.readPlain e), strategy } : Resolve JobDraft)
        = pure { job := b, strategy } :=
    bind_of_eq_pure (congrArg Resolve.ofExcept hread) _
  refine Leads.append (leads_field
    (fun a o => { a with job := { a.job with displayName := o } }) rfl (fun _ _ => rfl) rfl) ?_
  refine Leads.append (leads_field
    (fun a o => { a with job := { a.job with condition := o } }) rfl (fun _ _ => rfl) rfl) ?_
  refine Leads.append (leads_field
    (fun a o => { a with job := { a.job with continueOnError := o } }) rfl (fun _ _ => rfl) rfl) ?_
  refine Leads.append (leads_field
    (fun a o => { a with job := { a.job with timeoutInMinutes := o } }) rfl (fun _ _ => rfl) rfl) ?_
  refine Leads.append (leads_field
    (fun a o => { a with job := { a.job with cancelTimeoutInMinutes := o } }) rfl
    (fun _ _ => rfl) rfl) ?_
  refine Leads.append (leads_field
    (fun a o => { a with job := { a.job with container := o } }) rfl
    (fun container hmem => hplain
      (bind_of_eq_pure (Container.ofToken?_toToken (h.container container hmem)) _) _) rfl) ?_
  refine Leads.append (leads_field
    (fun a o => { a with job := { a.job with services := o } }) rfl
    (fun services hmem => hplain (bind_of_eq_pure (leads_put (h.services services hmem).1
      fun e he services' => addService_toToken services' e.1 ((h.services services hmem).2 e he)) _)
      _) rfl) ?_
  refine Leads.append (leads_field
    (fun a o => { a with job := { a.job with templateContext := o } }) rfl
    (fun t hmem => hplain (readPlain_templateContext _ (h.templateContext t hmem)) _) rfl) ?_
  refine Leads.append (leads_field
    (fun a o => { a with job := { a.job with dependsOn := o } }) rfl
    (fun names _ => hplain (bind_of_eq_pure (expectTexts_textsToken names _) _) _) rfl) ?_
  -- The token of the strategy is put aside until the kind of the job is known.
  refine Leads.append (leads_field
    (fun a o => { a with strategy := o.map Strategy.toToken }) rfl (fun _ _ => rfl) rfl) ?_
  refine Leads.append (leads_field
    (fun a o => { a with job := { a.job with vars := o } }) rfl
    (fun vars hmem => bind_of_eq_pure (addVariables_variablesToken (h.vars vars hmem)) _) rfl) ?_
  refine Leads.append (leads_own h hc _ rfl rfl) ?_
  refine Leads.append (leads_field
    (fun a o => { a with job := { a.job with pool := o } }) rfl
    (fun pool _ => hplain (bind_of_eq_pure pool.ofToken?_toToken _) _) rfl) ?_
  refine Leads.append (leads_field
    (fun a o => { a with job := { a.job with uses := o } }) rfl
    (fun uses _ => hplain (bind_of_eq_pure uses.ofToken?_toToken _) _) rfl) ?_
  exact leads_field
    (fun a o => { a with job := { a.job with workspace := o } }) rfl (fun _ _ => rfl) rfl

theorem Job.keyword_eq (j : Job) : j.keyword = "job" ∨ j.keyword = "deployment" := by
  unfold keyword
  split
  · exact .inr rfl
  · exact .inl rfl

/-- **Of a sound job, what is kept is read back from its token**, whatever references may lead
to. -/
theorem Job.ofToken?_toToken {j : Job} (h : j.Sound tasks) (hc : c.tasks = tasks)
    (ht : t.entries? = j.toToken.entries?) : Job.ofToken? refs c t false = pure j.kept := by
  rw [j.entries?_toToken] at ht
  have hleads : Leads (JobDraft.read refs c) {} ((j.keyword, nameToken j.name) :: j.pairs)
      { job := { j.kept with strategy := none }, strategy := j.strategy.map Strategy.toToken } :=
    .cons j.leads_keyword (j.leads_pairs h hc)
  rw [ofToken?, Token.expectMapping_eq _ ht]
  have hfirst : ¬ (!false && firstKey? (madeEntry (j.keyword, nameToken j.name)
      :: j.pairs.map madeEntry) ≠ some "job"
      && firstKey? (madeEntry (j.keyword, nameToken j.name) :: j.pairs.map madeEntry)
        ≠ some "deployment") = true := by
    rcases j.keyword_eq with hkey | hkey <;> simp [firstKey?, madeEntry, hkey]
  refine (if_neg hfirst).trans ?_
  refine (bind_of_eq_pure hleads _).trans ?_
  cases hstrategy : j.strategy with
  | none =>
      change (pure { j.kept with strategy := none } : Resolve Job) = pure j.kept
      rw [← hstrategy]
      rfl
  | some s =>
      refine (bind_of_eq_pure (Strategy.ofToken?_toToken (h.strategy s hstrategy) hc) _).trans ?_
      rw [← hstrategy]
      rfl

theorem jobsOfItem_toToken {j : Job} (h : j.Sound tasks) (hc : c.tasks = tasks) :
    jobsOfItem refs c j.toToken = pure [j.kept] := by
  have htemplate : templateReference? (madeEntry (j.keyword, nameToken j.name)
      :: j.pairs.map madeEntry) = none := by
    rcases j.keyword_eq with hkey | hkey <;> simp [templateReference?, madeEntry, hkey]
  rw [jobsOfItem, Token.expectMapping_eq _ j.entries?_toToken]
  refine (pure_bind _ _).trans ?_
  rw [htemplate]
  exact bind_of_eq_pure (Job.ofToken?_toToken h hc rfl) _

/-- **Of sound jobs, what is kept is read back from their token.** -/
theorem jobList_jobsToken {jobs : List Job} (h : ∀ j ∈ jobs, j.Sound tasks)
    (hc : c.tasks = tasks) (ht : t.items? = (jobsToken jobs).items?) :
    jobList refs c t = pure (jobs.map Job.kept) := by
  have hitems : t.items? = some (jobs.map Job.toToken) := ht
  rw [jobList, Token.isNull_eq_false_of_items? hitems, Token.expectSequence_eq _ hitems]
  exact (collects_jobsOfItems refs c).map_eq_pure Job.kept fun j hj =>
    jobsOfItem_toToken (h j hj) hc

theorem jobsToken_kept (jobs : List Job) : jobsToken (jobs.map Job.kept) = jobsToken jobs := by
  rw [jobsToken, jobsToken, List.map_map]
  exact congrArg Token.ofItems (List.map_congr_left fun j _ => j.toToken_kept)

end PipelineExpansion.Pipeline
