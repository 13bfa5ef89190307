import PipelineExpansion.Pipeline.Compose
import PipelineExpansion.Proofs.Pipeline.Binding
import PipelineExpansion.Proofs.Template.BareEvaluation

/-!
# What is read from tokens without the numbers of files

A step holds no token, so it is read in the same way from a bare one. Jobs, stages and pipelines hold
tokens where they keep what is written in a document as it is; these are bare then.

As for tokens there are two shapes of lemmas: `f t.bare = f t`, or `f t.bare = bare <$> f t`.

## Main results

* `Step.ofEntries?_bare`, `Job.readPlain_bare`, `Stage.readPlain_bare`: the properties of steps, jobs
  and stages.
* `Parameter.ofToken?_bare`, `settle_bare`: the parameters of templates.
-/

namespace PipelineExpansion.Pipeline

open Template (Context Entry Key Token bareEntry bareEntry_mk fst_bareEntry snd_bareEntry)

/-! ### What holds tokens -/

/-- A job without the numbers of files. -/
def Job.bare (j : Job) : Job := { j with templateContext := j.templateContext.map Token.bare }

/-- A stage without the numbers of files. -/
def Stage.bare (s : Stage) : Stage :=
  { s with
    jobs := s.jobs.map (·.map Job.bare)
    templateContext := s.templateContext.map Token.bare }

/-- Resources without the numbers of files. -/
def Resources.bare (r : Resources) : Resources :=
  { r with other := r.other.map fun (kind, t) => (kind, t.bare) }

/-- A pipeline without the numbers of files. -/
def bare (p : Pipeline) : Pipeline :=
  { p with
    resources := p.resources.map Resources.bare
    stages := p.stages.map (·.map Stage.bare)
    trigger := p.trigger.map Token.bare
    pr := p.pr.map Token.bare
    schedules := p.schedules.map Token.bare }

/-- A declared parameter without the numbers of files. -/
def Parameter.bare (p : Parameter) : Parameter :=
  { p with default := p.default.bare, values := p.values.map (·.map Token.bare) }

/-- An item of a sequence of variables without the numbers of files. -/
def VariableItem.bare (item : VariableItem) : VariableItem :=
  { item with parameters := item.parameters.map Token.bare }

/-- A job that is being read, without the numbers of files. -/
def JobDraft.bare (d : JobDraft) : JobDraft := ⟨d.job.bare, d.strategy.map Token.bare⟩

/-- A pipeline that is being read, without the numbers of files. -/
def Draft.bare (d : Draft) : Draft :=
  { d with
    pipeline := d.pipeline.bare
    base := d.base.map Pipeline.bare
    left := d.left.map bareEntry }

variable {t : Token} {e : Entry}

/-! ### Steps -/

@[simp] theorem expectInt32_bare (t : Token) (what : String) :
    expectInt32 t.bare what = expectInt32 t what := by
  simp [expectInt32]

@[simp] theorem Target.read_bare (target : Target) (e : Entry) :
    target.read (bareEntry e) = target.read e := by
  simp [Target.read]

@[simp] theorem Target.ofToken?_bare (t : Token) : Target.ofToken? t.bare = Target.ofToken? t := by
  simp [Target.ofToken?, List.foldlM_map]

@[simp] theorem Step.control?_bare (step : Step) (e : Entry) :
    step.control? (bareEntry e) = step.control? e := by
  obtain ⟨key, value⟩ := e
  simp [Step.control?, bareEntry_mk]

@[simp] theorem Step.controls_bare (step : Step) (entries : List Entry) :
    step.controls (entries.map bareEntry) =
      (fun r => (r.1, r.2.map bareEntry)) <$> step.controls entries := by
  induction entries generalizing step with
  | nil => rfl
  | cons e rest ih =>
      simp only [List.map_cons, Step.controls, Step.control?_bare, map_bind]
      refine congrArg _ (funext fun found => ?_)
      cases found <;> simp [ih]

@[simp] theorem addInput_bare (inputs : Task.Inputs) (e : Entry) :
    addInput inputs (bareEntry e) = addInput inputs e := by
  simp [addInput]

@[simp] theorem addTaskInputs_bare (inputs : Task.Inputs) (e : Entry) :
    addTaskInputs inputs (bareEntry e) = addTaskInputs inputs e := by
  simp only [addTaskInputs, fst_bareEntry, snd_bareEntry, Key.name_bare, Token.isNull_bare,
    Token.expectTextMap_bare]
  rfl

@[simp] theorem Step.ofEntries?_bare (c : Context) (key : Key) (value : Token) (rest : List Entry) :
    Step.ofEntries? c key.bare value.bare (rest.map bareEntry) = Step.ofEntries? c key value rest := by
  simp [Step.ofEntries?, List.foldlM_map]

/-! ### References -/

@[simp] theorem templateParameters_bare (entries : List Entry) :
    templateParameters (entries.map bareEntry) =
      Option.map Token.bare <$> templateParameters entries := by
  rcases entries with _ | ⟨⟨key, value⟩, _ | ⟨⟨second, _⟩, rest⟩⟩
  · rfl
  · by_cases hname : key.name = "parameters" <;> simp [templateParameters, bareEntry_mk, hname]
  · rfl

@[simp] theorem templateReference?_bare (entries : List Entry) :
    templateReference? (entries.map bareEntry) =
      (templateReference? entries).map fun r => (r.1.bare, r.2.map bareEntry) := by
  rcases entries with _ | ⟨⟨key, path⟩, rest⟩
  · rfl
  · by_cases hname : key.name = "template" <;> simp [templateReference?, bareEntry_mk, hname]

@[simp] theorem firstKey?_bare (entries : List Entry) :
    firstKey? (entries.map bareEntry) = firstKey? entries := by
  cases entries <;> rfl

/-! ### Containers and pools -/

@[simp] theorem Mounts.read_bare (m : Mounts) (e : Entry) : m.read (bareEntry e) = m.read e := by
  simp [Mounts.read]

@[simp] theorem Mounts.ofToken?_bare (t : Token) : Mounts.ofToken? t.bare = Mounts.ofToken? t := by
  simp [Mounts.ofToken?, List.foldlM_map]

@[simp] theorem Container.read_bare (c : Container) (e : Entry) :
    c.read (bareEntry e) = c.read e := by
  obtain ⟨key, value⟩ := e
  simp [Container.read, bareEntry_mk]

@[simp] theorem Container.ofToken?_bare (t : Token) :
    Container.ofToken? t.bare = Container.ofToken? t := by
  simp [Container.ofToken?, List.foldlM_map]

@[simp] theorem Pool.read_bare (p : Pool) (e : Entry) : p.read (bareEntry e) = p.read e := by
  obtain ⟨key, value⟩ := e
  simp [Pool.read, bareEntry_mk]

@[simp] theorem Pool.ofToken?_bare (t : Token) : Pool.ofToken? t.bare = Pool.ofToken? t := by
  simp [Pool.ofToken?, List.foldlM_map]

/-! ### Strategies -/

@[simp] theorem parallelOf_bare (t : Token) : parallelOf t.bare = parallelOf t := by
  simp only [parallelOf, Token.get?_bare]
  cases t.get? "maxParallel" <;> simp

@[simp] theorem incrementsOf_bare (t : Token) : incrementsOf t.bare = incrementsOf t := by
  simp only [incrementsOf, Token.get?_bare]
  cases t.get? "increments" <;> simp [List.mapM_map, Function.comp_def]

@[simp] theorem addLeg_bare (matrix : Dictionary (Dictionary String)) (e : Entry) :
    addLeg matrix (bareEntry e) = addLeg matrix e := by
  simp [addLeg]

@[simp] theorem Strategy.readForJob_bare (s : Strategy) (e : Entry) :
    s.readForJob (bareEntry e) = s.readForJob e := by
  obtain ⟨key, value⟩ := e
  simp [Strategy.readForJob, bareEntry_mk, List.foldlM_map]

/-! ### Jobs -/

@[simp] theorem nameOf?_bare (t : Token) (what : String) : nameOf? t.bare what = nameOf? t what := by
  simp [nameOf?]

@[simp] theorem readEnvironment_bare (draft : Option String × Option String) (e : Entry) :
    readEnvironment draft (bareEntry e) = readEnvironment draft e := by
  simp [readEnvironment]

@[simp] theorem Environment.ofToken?_bare (t : Token) :
    Environment.ofToken? t.bare = Environment.ofToken? t := by
  simp [Environment.ofToken?, List.foldlM_map]

@[simp] theorem Uses.read_bare (u : Uses) (e : Entry) : u.read (bareEntry e) = u.read e := by
  simp [Uses.read]

@[simp] theorem Uses.ofToken?_bare (t : Token) : Uses.ofToken? t.bare = Uses.ofToken? t := by
  simp [Uses.ofToken?, List.foldlM_map]

@[simp] theorem workspaceOf_bare (t : Token) : workspaceOf t.bare = workspaceOf t := by
  simp only [workspaceOf, Token.get?_bare]
  cases t.get? "clean" <;> simp

@[simp] theorem addService_bare (services : Dictionary Container) (e : Entry) :
    addService services (bareEntry e) = addService services e := by
  simp [addService]

mutual

@[simp] theorem textual_bare (t : Token) : textual t.bare = (textual t).bare := by
  match t with
  | .null o | .boolean o b | .number o n | .text o s => rfl
  | .sequence o items => rw [Token.bare_sequence, textual, textual, textualItems_bare, Token.bare_sequence]
  | .mapping o entries =>
      rw [Token.bare_mapping, textual, textual, textualEntries_bare, Token.bare_mapping]

theorem textualItems_bare (items : List Token) :
    textualItems (items.map Token.bare) = (textualItems items).map Token.bare := by
  match items with
  | [] => rfl
  | t :: rest => rw [List.map_cons, textualItems, textualItems, textual_bare, textualItems_bare]; rfl

theorem textualEntries_bare (entries : List (Key × Token)) :
    textualEntries (entries.map bareEntry) = (textualEntries entries).map bareEntry := by
  match entries with
  | [] => rfl
  | (k, t) :: rest =>
      rw [List.map_cons, bareEntry_mk, textualEntries, textualEntries, textual_bare, textualEntries_bare]
      rfl

end

@[simp] theorem Job.readPlain_bare (j : Job) (e : Entry) :
    j.bare.readPlain (bareEntry e) = Job.bare <$> j.readPlain e := by
  obtain ⟨⟨o, name⟩, value⟩ := e
  simp only [Job.readPlain, bareEntry_mk, Key.name_bare]
  split <;> simp [Job.bare, List.foldlM_map]

/-! ### Stages -/

@[simp] theorem Stage.readPlain_bare (s : Stage) (e : Entry) :
    s.bare.readPlain (bareEntry e) = Stage.bare <$> s.readPlain e := by
  obtain ⟨⟨o, name⟩, value⟩ := e
  simp only [Stage.readPlain, bareEntry_mk, Key.name_bare]
  split <;> simp [Stage.bare]

/-! ### Variables -/

@[simp] theorem VariableItem.read_bare (item : VariableItem) (e : Entry) :
    item.bare.read (bareEntry e) = VariableItem.bare <$> item.read e := by
  obtain ⟨⟨o, name⟩, value⟩ := e
  simp only [VariableItem.read, bareEntry_mk, Key.name_bare]
  split <;> simp [VariableItem.bare]

@[simp] theorem addVariableEntry_bare (vars : List Variable) (e : Entry) :
    addVariableEntry vars (bareEntry e) = addVariableEntry vars e := by
  simp [addVariableEntry]

@[simp] theorem entryIsOpen_bare (e : Entry) : entryIsOpen (bareEntry e) = entryIsOpen e := by
  simp [entryIsOpen, hasOpenExpression]

@[simp] theorem addStaticEntry_bare (pairs : List (String × String)) (e : Entry) :
    addStaticEntry pairs (bareEntry e) = addStaticEntry pairs e := by
  simp [addStaticEntry]

@[simp] theorem addStaticItem_bare (pairs : List (String × String)) (t : Token) :
    addStaticItem pairs t.bare = addStaticItem pairs t := by
  simp only [addStaticItem, Token.entries?_bare, Token.get?_bare]
  cases t.entries? with
  | none => rfl
  | some entries =>
      simp only [Option.map_some, List.any_map, Function.comp_def, entryIsOpen_bare]
      cases t.get? "name" <;> cases t.get? "value" <;> simp

@[simp] theorem staticVariables_bare (t : Token) : staticVariables t.bare = staticVariables t := by
  cases t with
  | mapping o entries => simp [staticVariables, List.foldlM_map]
  | sequence o items => simp [staticVariables, List.foldlM_map]
  | _ => rfl

@[simp] theorem visibleVariables_bare (c : Context) (declared : Option Token) :
    visibleVariables c (declared.map Token.bare) = visibleVariables c declared := by
  cases declared <;> simp [visibleVariables]

/-! ### Parameters -/

@[simp] theorem withoutParameters_bare (t : Token) :
    withoutParameters t.bare = (withoutParameters t).bare := by
  cases t with
  | mapping o entries =>
      simp only [withoutParameters, Token.bare_mapping, List.filter_map]
      rfl
  | _ => rfl

@[simp] theorem convertScalar_bare (t zero : Token) (kind : String) :
    convertScalar t.bare zero.bare kind = Token.bare <$> convertScalar t zero kind := by
  simp only [convertScalar, Token.isNull_bare, Token.kindName_bare, Token.span_bare]
  split
  · rfl
  · split <;> rfl

@[simp] theorem requireDeployment_bare (t : Token) (j : Job) :
    requireDeployment t.bare j.bare = requireDeployment t j := by
  simp [requireDeployment, Job.bare]

@[simp] theorem Parameter.read_bare (p : Parameter) (e : Entry) :
    p.bare.read (bareEntry e) = Parameter.bare <$> p.read e := by
  obtain ⟨⟨o, name⟩, value⟩ := e
  simp only [Parameter.read, bareEntry_mk, Key.name_bare]
  split <;> simp [Parameter.bare]

@[simp] theorem Parameter.ofToken?_bare (t : Token) :
    Parameter.ofToken? t.bare = (fun r => (r.1, r.2.bare)) <$> Parameter.ofToken? t := by
  have hentries (entries : List Entry) :
      (entries.map bareEntry).foldlM Parameter.read {} =
        Parameter.bare <$> entries.foldlM Parameter.read {} :=
    Template.foldlM_hom Parameter.read_bare entries {}
  simp only [Parameter.ofToken?, Token.expectMapping_bare, bind_map_left, map_bind, hentries]
  refine congrArg _ (funext fun entries => congrArg _ (funext fun p => ?_))
  rcases p with ⟨_ | name, _⟩
  · rw [Token.fault_bare]
    rfl
  · rfl

@[simp] theorem Parameter.check_bare (p : Parameter) (name : String) (value : Token) :
    p.bare.check name value.bare = p.check name value := by
  rcases p with ⟨_, _, _, _ | allowed⟩
  · rfl
  · simp [Parameter.bare, Parameter.check, Function.comp_def]

@[simp] theorem provided?_bare (provided : List Entry) (name : String) :
    provided? (provided.map bareEntry) name = (provided? provided name).map Token.bare := by
  simp only [provided?, List.find?_map, Option.map_map, Function.comp_def]
  rfl

@[simp] theorem bindEntry_bare (provided : List Entry) (e : Entry) :
    bindEntry (provided.map bareEntry) (bareEntry e) =
      ((bindEntry provided e).1, (bindEntry provided e).2.bare) := by
  simp only [bindEntry, fst_bareEntry, snd_bareEntry, Key.name_bare, provided?_bare]
  cases provided? provided e.1.name <;> rfl

@[simp] theorem providedOf_bare (values : Option Token) :
    providedOf (values.map Token.bare) = List.map bareEntry <$> providedOf values := by
  cases values with
  | none => rfl
  | some t =>
      cases t with
      | mapping o entries => exact (Token.mapping o entries).expectMapping_bare "parameters"
      | _ => rfl

@[simp] theorem settle_bare (provided : List Entry) (bound : List (String × Token)) :
    settle (provided.map bareEntry) (bound.map fun b => (b.1, b.2.bare)) =
      Token.bare <$> settle provided bound := by
  have hnames : (provided.map bareEntry).map (·.1.name) = provided.map (·.1.name) := by simp
  have hbound : (bound.map fun b => (b.1, b.2.bare)).map (·.1) = bound.map (·.1) := by simp
  have hfault : undeclaredFault (provided.map bareEntry) (bound.map fun b => (b.1, b.2.bare)) =
      undeclaredFault provided bound := by
    simp only [undeclaredFault, hnames, List.any_map, Function.comp_def]
  have hused : used (provided.map bareEntry) (bound.map fun b => (b.1, b.2.bare)) =
      used provided bound := by
    simp only [used, hnames, hbound]
  simp only [settle, hused, hfault, List.length_map]
  split <;> simp

/-! ### Resources -/

@[simp] theorem resourceContainer_bare (t : Token) :
    resourceContainer t.bare = resourceContainer t := by
  simp only [resourceContainer, Token.expectMapping_bare, bind_map_left, Container.ofToken?_bare,
    Token.fault_bare]
  refine congrArg _ (funext fun entries => ?_)
  cases entries <;> simp [bareEntry]

theorem Resources.put_bare (other : Dictionary Token) (kind : String) (t : Token) :
    Dictionary.put (other.map fun (kind, t) => (kind, t.bare)) kind t.bare =
      (Dictionary.put other kind t).map fun (kind, t) => (kind, t.bare) := by
  induction other with
  | nil => rfl
  | cons first rest ih =>
      simp only [List.map_cons, Dictionary.put, ih]
      split
      · rfl
      · split <;> rfl

@[simp] theorem Resources.read_bare (r : Resources) (e : Entry) :
    r.bare.read (bareEntry e) = Resources.bare <$> r.read e := by
  by_cases hname : e.1.name = "containers"
  · simp [Resources.read, Resources.bare, hname, List.mapM_map, Function.comp_def]
  · simp [Resources.read, Resources.bare, hname, Resources.put_bare]

@[simp] theorem Resources.ofToken?_bare (t : Token) :
    Resources.ofToken? t.bare = Resources.bare <$> Resources.ofToken? t := by
  have hentries (entries : List Entry) :
      (entries.map bareEntry).foldlM Resources.read {} =
        Resources.bare <$> entries.foldlM Resources.read {} :=
    Template.foldlM_hom Resources.read_bare entries {}
  simp [Resources.ofToken?, hentries]

@[simp] theorem Job.resolveContainers_bare (r : Resources) (j : Job) :
    Job.resolveContainers r.bare j.bare = (Job.resolveContainers r j).bare := rfl

theorem resolveContainers_bare (p : Pipeline) : p.bare.resolveContainers = p.resolveContainers.bare := by
  rcases p with ⟨_, _, _ | r, stages, _⟩
  · rfl
  · cases stages <;> simp [bare, resolveContainers, Stage.bare, Function.comp_def]

/-! ### As tokens -/

section Tokens

variable {α : Type}

@[simp] theorem map_field (name : String) (token : α → Token) (a : Option α) :
    ((field name token a).map fun p => (p.1, p.2.bare)) = field name (fun a => (token a).bare) a := by
  cases a <;> rfl

@[simp] theorem field_map {β : Type} (name : String) (token : β → Token) (f : α → β) (a : Option α) :
    field name token (a.map f) = field name (fun a => token (f a)) a := by
  cases a <;> rfl

@[simp] theorem bare_textsToken (texts : List String) : (textsToken texts).bare = textsToken texts := by
  simp [textsToken, Function.comp_def]

@[simp] theorem bare_pairsToken (pairs : List (String × String)) :
    (pairsToken pairs).bare = pairsToken pairs := by
  simp [pairsToken, Function.comp_def]

@[simp] theorem Target.bare_toToken (target : Target) : target.toToken.bare = target.toToken := by
  simp [Target.toToken, apply_ite Token.bare]

@[simp] theorem Step.bare_toToken (s : Step) : s.toToken.bare = s.toToken := by
  simp [Step.toToken, apply_ite (List.map _)]

@[simp] theorem bare_stepsToken (steps : List Step) : (stepsToken steps).bare = stepsToken steps := by
  simp [stepsToken, Function.comp_def]

@[simp] theorem Pool.bare_toToken (p : Pool) : p.toToken.bare = p.toToken := by
  simp [Pool.toToken]

@[simp] theorem Mounts.bare_toToken (m : Mounts) : m.toToken.bare = m.toToken := by
  simp [Mounts.toToken]

@[simp] theorem Container.bare_toToken (c : Container) : c.toToken.bare = c.toToken := by
  simp [Container.toToken]

@[simp] theorem Hook.bare_toToken (h : Hook) : h.toToken.bare = h.toToken := by
  simp [Hook.toToken]

@[simp] theorem Hooks.bare_toToken (h : Hooks) : h.toToken.bare = h.toToken := by
  simp [Hooks.toToken, apply_ite (List.map _)]

@[simp] theorem Strategy.bare_toToken (s : Strategy) : s.toToken.bare = s.toToken := by
  simp [Strategy.toToken, Function.comp_def]

@[simp] theorem bare_variablesToken (vars : List Variable) :
    (variablesToken vars).bare = variablesToken vars := by
  have hvariable (v : Variable) : v.toToken.bare = v.toToken := by
    cases v <;> simp [Variable.toToken, apply_ite (List.map _)]
  simp [variablesToken, hvariable, Function.comp_def]

@[simp] theorem bare_nameToken (name : Option String) : (nameToken name).bare = nameToken name := by
  cases name <;> rfl

@[simp] theorem Environment.bare_toToken (e : Environment) : e.toToken.bare = e.toToken := by
  rcases e with ⟨name, _ | resourceType⟩ <;> simp [Environment.toToken]

@[simp] theorem Uses.bare_toToken (u : Uses) : u.toToken.bare = u.toToken := by
  simp [Uses.toToken]

@[simp] theorem Job.bare_toToken (j : Job) : j.toToken.bare = j.bare.toToken := by
  cases hdeployment : j.deployment <;> simp [Job.toToken, Job.bare, Function.comp_def, hdeployment]

@[simp] theorem bare_jobsToken (jobs : List Job) :
    (jobsToken jobs).bare = jobsToken (jobs.map Job.bare) := by
  simp [jobsToken, Function.comp_def]

@[simp] theorem Stage.bare_toToken (s : Stage) : s.toToken.bare = s.bare.toToken := by
  simp [Stage.toToken, Stage.bare]

@[simp] theorem bare_stagesToken (stages : List Stage) :
    (stagesToken stages).bare = stagesToken (stages.map Stage.bare) := by
  simp [stagesToken, Function.comp_def]

end Tokens

end PipelineExpansion.Pipeline
