import PipelineExpansion.Proofs.Pipeline.Retrace
import PipelineExpansion.Proofs.Pipeline.Root

/-!
# Stages that are written out

A root with steps, or with jobs, leaves its stage to be made from what is left over. The same stage may
be written out: under `stages`, with a job and a stage that have no name, and with the left-over entries
in the job or in the stage. Both roots are read to the same pipeline, wherever among the pipeline's own
entries the stages are written.

What is left over makes the same job and the same stage in both (`stageList_stagesOfSteps`,
`stageList_stagesOfJobs`). What differs is when: an implicit stage is composed behind all of the
pipeline's own entries, and one that is written out before those that follow it. Neither sees anything
of the other, so they are retraced in the other order.

## Main results

* `readsAlike_of_writesOut`: a root, and the same root with its stage written out, are read to the same
  pipeline, up to the numbers of files; one is refused just if the other is.
-/

namespace PipelineExpansion.Pipeline

open Template (Context Entry Journal Origin Resolve Token)
open Template.Resolve

variable {refs : References} {c : Context} {d : Draft} {e : Entry} {entries : List Entry}
  {o o' : Origin} {stages : Token}

/-! ### What is left over, written out -/

/-- Left-over entries as a job without a name. -/
def jobOf (o : Origin) (left : List Entry) : Token := .mapping o ((⟨o, "job"⟩, .null o) :: left)

/-- Left-over entries as a stage without a name. -/
def stageOf (o : Origin) (left : List Entry) : Token := .mapping o ((⟨o, "stage"⟩, .null o) :: left)

/-- The stages of a root with steps: one stage of one job. -/
def stagesOfSteps (o : Origin) (left : List Entry) : Token :=
  .sequence o [stageOf o [(⟨o, "jobs"⟩, .sequence o [jobOf o left])]]

/-- The stages of a root with jobs: one stage. -/
def stagesOfJobs (o : Origin) (left : List Entry) : Token := .sequence o [stageOf o left]

/-- A root is another one with stages in place of what is left over. They stand anywhere among the
entries that a pipeline reads itself, which are in the same order. -/
def WritesOut (entries written : List Entry) (stages : Token) : Prop :=
  ∃ before after keyPlace, entries.filter isOwn = before ++ after ∧
    written = before ++ (⟨keyPlace, "stages"⟩, stages) :: after

/-- Both steps return the same pipeline, up to the numbers of files, or neither returns one. -/
def ReadsAlike (x y : Resolve Pipeline) : Prop :=
  ∀ j : Journal,
    ((∃ p j', x.run.run j = some (.ok p, j')) ↔ ∃ p j', y.run.run j = some (.ok p, j')) ∧
    ∀ p p' j₁ j₂, x.run.run j = some (.ok p, j₁) → y.run.run j = some (.ok p', j₂) →
      p.bare = p'.bare

theorem readsAlike_of_retraces {maximum : Nat} {x y : Resolve Pipeline}
    (h : Retraces maximum bare x y) (h' : Retraces maximum bare y x) : ReadsAlike x y := by
  intro j
  constructor
  · constructor
    · rintro ⟨p, j', hrun⟩
      obtain ⟨_, -, hroom, hagain⟩ := h j p j' hrun
      obtain ⟨p', j₂, hrun', -⟩ := hagain j hroom
      exact ⟨p', j₂, hrun'⟩
    · rintro ⟨p, j', hrun⟩
      obtain ⟨_, -, hroom, hagain⟩ := h' j p j' hrun
      obtain ⟨p', j₂, hrun', -⟩ := hagain j hroom
      exact ⟨p', j₂, hrun'⟩
  · intro p p' j₁ j₂ hrun hrun'
    obtain ⟨_, -, hroom, hagain⟩ := h j p j₁ hrun
    obtain ⟨p'', j₃, hrun'', hsame, -⟩ := hagain j hroom
    rw [hrun'] at hrun''
    cases hrun''
    exact hsame

/-! ### The same job and the same stage -/

theorem Job.ofToken?_jobOf (refs : References) (c : Context) (o o' : Origin) (left : List Entry) :
    Job.ofToken? refs c (jobOf o left) false = Job.ofToken? refs c (.mapping o' left) true := by
  rw [Job.ofToken?_implicit]
  rfl

theorem Stage.ofToken?_stageOf (refs : References) (c : Context) (o o' : Origin)
    (left : List Entry) :
    Stage.ofToken? refs c (stageOf o left) false = Stage.ofToken? refs c (.mapping o' left) true := by
  rw [Stage.ofToken?_implicit]
  rfl

theorem stageList_stagesOfJobs (refs : References) (c : Context) (o o' : Origin)
    (left : List Entry) :
    stageList refs c (stagesOfJobs o left) =
      Stage.ofToken? refs c (.mapping o' left) true >>= fun stage => pure [stage] := by
  have hstages : stageList refs c (stagesOfJobs o left) =
      (Stage.ofToken? refs c (stageOf o left) false >>= fun stage => pure [stage]) >>= fun own =>
        pure (own ++ []) := rfl
  rw [hstages, bind_assoc, Stage.ofToken?_stageOf refs c o o']
  rfl

theorem stageList_stagesOfSteps (refs : References) (c : Context) (o o' : Origin)
    (left : List Entry) :
    stageList refs c (stagesOfSteps o left) =
      Job.ofToken? refs c (.mapping o' left) true >>= fun job => pure [{ jobs := some [job] }] := by
  have hjobs : Stage.ofToken? refs c (.mapping o [(⟨o, "jobs"⟩, .sequence o [jobOf o left])]) true =
      ((Job.ofToken? refs c (jobOf o left) false >>= fun job => pure [job]) >>= fun own =>
        pure (own ++ [])) >>= fun jobs => pure { jobs := some jobs } := by
    rw [Stage.ofToken?_implicit, List.foldlM_cons]
    simp only [List.foldlM_nil, bind_pure]
    rfl
  have hstages := stageList_stagesOfJobs refs c o o [(⟨o, "jobs"⟩, .sequence o [jobOf o left])]
  rw [hjobs, Job.ofToken?_jobOf refs c o o'] at hstages
  rw [stagesOfSteps, ← stagesOfJobs, hstages]
  simp only [bind_assoc, pure_bind]
  rfl

/-! ### Names -/

/-- Without an entry that names it, a job has no name. -/
theorem Job.yields_name (refs : References) (c : Context) (o : Origin) {left : List Entry}
    (hjob : "job" ∉ left.map (·.1.name))
    (hdeployment : "deployment" ∉ left.map (·.1.name)) :
    Yields (Job.ofToken? refs c (.mapping o left) true) fun job => job.name = none := by
  have hplain (job : Job) (e : Entry) (he : e ∈ left) (hname : job.name = none) :
      Ensures (job.readPlain e) fun job => job.name = none := by
    have hne {name : String} (h : name ∉ left.map (·.1.name)) : e.1.name ≠ name :=
      fun heq => h (List.mem_map.mpr ⟨e, he, heq⟩)
    unfold Job.readPlain
    dsimp only
    split
    case h_1 heq => exact absurd heq (hne hjob)
    case h_2 heq => exact absurd heq (hne hdeployment)
    case h_10 =>
      exact ensures_bind_of_forall fun _ => ensures_bind_of_forall fun _ => ensures_pure hname
    case h_11 => exact ensures_ok hname
    case h_16 => exact ensures_error _ _
    all_goals exact ensures_bind_of_forall fun _ => ensures_pure hname
  have hread (d : JobDraft) (e : Entry) (he : e ∈ left) (hname : d.job.name = none) :
      Yields (d.read refs c e) fun d => d.job.name = none := by
    unfold JobDraft.read
    split
    case h_1 => exact yields_pure hname
    case h_4 => exact (yields_ofExcept (hplain d.job e he hname)).bind fun _ h => yields_pure h
    all_goals exact yields_bind_of_forall fun _ => yields_pure hname
  rw [Job.ofToken?_implicit]
  refine (yields_foldlM_of_mem hread rfl).bind fun d hname => ?_
  unfold JobDraft.finish
  split
  · exact yields_pure hname
  · exact yields_bind_of_forall fun _ => yields_pure hname

/-- Without an entry that names it, a stage has no name. -/
theorem Stage.yields_name (refs : References) (c : Context) (o : Origin) {left : List Entry}
    (hstage : "stage" ∉ left.map (·.1.name)) :
    Yields (Stage.ofToken? refs c (.mapping o left) true) fun stage => stage.name = none := by
  have hplain (s : Stage) (e : Entry) (he : e ∈ left) (hname : s.name = none) :
      Ensures (s.readPlain e) fun s => s.name = none := by
    have hne : e.1.name ≠ "stage" := fun heq => hstage (List.mem_map.mpr ⟨e, he, heq⟩)
    unfold Stage.readPlain
    dsimp only
    split
    case h_1 heq => exact absurd heq hne
    case h_7 => exact ensures_ok hname
    case h_8 => exact ensures_error _ _
    all_goals exact ensures_bind_of_forall fun _ => ensures_pure hname
  rw [Stage.ofToken?_implicit]
  refine yields_foldlM_of_mem (fun s e he hname => ?_) rfl
  unfold Stage.read
  split
  case h_3 => exact yields_ofExcept (hplain s e he hname)
  all_goals exact yields_bind_of_forall fun _ => yields_pure hname

/-! ### The root, and the root written out -/

/-- A draft whose stages have been composed. -/
def Draft.setStages (d : Draft) (stages : List Stage) : Draft :=
  { d with pipeline := { d.pipeline with stages := some stages } }

/-- The pipeline of a draft, with stages. -/
def Draft.withStages (d : Draft) (stages : List Stage) : Pipeline :=
  { d.pipeline with stages := some stages }.resolveContainers

/-- An entry that is not the stages does not look at them. -/
theorem Draft.read_setStages (h : e.1.name ≠ "stages") (d : Draft) (s : List Stage) :
    (d.setStages s).read refs c e = d.read refs c e >>= fun d' => pure (d'.setStages s) := by
  obtain ⟨⟨o, name⟩, value⟩ := e
  unfold Draft.read
  dsimp only
  split
  case h_5 => exact absurd rfl h
  case h_7 => rfl
  all_goals simp only [bind_assoc, pure_bind, Draft.setStages]

/-- The root: its own entries, then the stage that the others make. -/
theorem ofToken?_eq_implicit (hextends : "extends" ∉ entries.map (·.1.name))
    (himplicit : ∀ d : Draft, d.left = [] ∧ d.implicit = .nothing →
      (d.leaveAll (leftOf entries)).implicitStages refs c o =
        stageList refs c stages >>= fun s => pure (some s)) :
    ofToken? refs c (.mapping o entries) =
      (entries.filter isOwn).foldlM (Draft.read refs c) {} >>= fun d =>
        stageList refs c stages >>= fun s => pure (d.withStages s) := by
  have hown : Yields (ownDraft refs c entries) fun d =>
      (d.left = [] ∧ d.implicit = .nothing) ∧ d.base = none :=
    fun _ _ _ hrun => ⟨ownDraft_left hrun, ownDraft_base hextends hrun⟩
  rw [ofToken?_eq]
  refine bind_congr_of_yields hown fun d hkept => ?_
  rw [himplicit d hkept.1, bind_assoc]
  simp only [pure_bind, Draft.finish, hkept.2]
  rfl

/-- Entries that a pipeline reads itself leave nothing over. -/
theorem ofToken?_of_isOwn (hown : ∀ e ∈ entries, isOwn e)
    (hextends : "extends" ∉ entries.map (·.1.name)) :
    ofToken? refs c (.mapping o entries) =
      entries.foldlM (Draft.read refs c) {} >>= fun d => pure d.pipeline.resolveContainers := by
  have hfilter : entries.filter isOwn = entries := List.filter_eq_self.mpr hown
  have hleft : leftOf entries = [] := List.filter_eq_nil_iff.mpr fun e he => by simp [hown e he]
  have hstages (d : Draft) (hd : d.left = [] ∧ d.implicit = .nothing) :
      (d.leaveAll []).implicitStages refs c o = pure d.pipeline.stages := by
    unfold Draft.implicitStages
    rw [Draft.leaveAll, List.foldl_nil, hd.2]
  have hkeeps : Yields (ownDraft refs c entries) fun d =>
      (d.left = [] ∧ d.implicit = .nothing) ∧ d.base = none :=
    fun _ _ _ hrun => ⟨ownDraft_left hrun, ownDraft_base hextends hrun⟩
  rw [ofToken?_eq, hleft]
  refine (bind_congr_of_yields hkeeps fun d hkept => ?_).trans (by rw [ownDraft, hfilter])
  rw [hstages d hkept.1, pure_bind, Draft.finish, hkept.2]
  rfl

/-- Entries that are not stages do not look at the stages. -/
theorem Draft.foldlM_setStages (h : "stages" ∉ entries.map (·.1.name)) (d : Draft)
    (s : List Stage) : entries.foldlM (Draft.read refs c) (d.setStages s) =
      entries.foldlM (Draft.read refs c) d >>= fun d' => pure (d'.setStages s) :=
  foldlM_comm_of_mem
    (fun d e he => Draft.read_setStages (fun heq => h (List.mem_map.mpr ⟨e, he, heq⟩)) d s) d

/-- The root written out: the entries before the stages, the stages, and the entries behind them. -/
theorem ofToken?_eq_written {before after : List Entry} (keyPlace : Origin)
    (hown : ∀ e ∈ before ++ after, isOwn e) (hextends : "extends" ∉ (before ++ after).map (·.1.name))
    (hstages : "stages" ∉ (before ++ after).map (·.1.name)) :
    ofToken? refs c (.mapping o (before ++ (⟨keyPlace, "stages"⟩, stages) :: after)) =
      before.foldlM (Draft.read refs c) {} >>= fun d =>
        stageList refs c stages >>= fun s =>
          after.foldlM (Draft.read refs c) d >>= fun d' => pure (d'.withStages s) := by
  have hall : ∀ e ∈ before ++ (⟨keyPlace, "stages"⟩, stages) :: after, isOwn e := by
    intro e he
    rcases List.mem_append.mp he with he | he
    · exact hown e (List.mem_append_left _ he)
    · rcases List.mem_cons.mp he with rfl | he
      · exact decide_eq_true (by decide : "stages" ∈ ownKeys)
      · exact hown e (List.mem_append_right _ he)
  have hnone : "extends" ∉ (before ++ (⟨keyPlace, "stages"⟩, stages) :: after).map (·.1.name) := by
    simpa using hextends
  have hafter : "stages" ∉ after.map (·.1.name) := fun hmem =>
    hstages (List.map_append ▸ List.mem_append_right _ hmem)
  have hcompose (d : Draft) : d.read refs c (⟨keyPlace, "stages"⟩, stages) =
      stageList refs c stages >>= fun s => pure (d.setStages s) := rfl
  rw [ofToken?_of_isOwn hall hnone, List.foldlM_append]
  simp only [List.foldlM_cons, hcompose, Draft.foldlM_setStages hafter, bind_assoc, pure_bind]
  rfl

/-- Entries that extend nothing are read again. -/
theorem retraces_ownEntries (h : Retraced c.limits.maxFiles refs refs)
    (hextends : "extends" ∉ entries.map (·.1.name)) {d d' : Draft} (hd : d.bare = d'.bare) :
    Retraces c.limits.maxFiles Draft.bare (entries.foldlM (Draft.read refs c) d)
      (entries.foldlM (Draft.read refs c) d') := by
  induction entries generalizing d d' with
  | nil => exact retraces_pure hd
  | cons e rest ih =>
      rw [List.map_cons, List.mem_cons, not_or] at hextends
      rw [List.foldlM_cons, List.foldlM_cons]
      refine (retraces_readDraft h hd rfl (Ne.symm hextends.1)).bind fun d d' hd => ?_
      exact ih hextends.2 hd

theorem Draft.withStages_bare {d d' : Draft} (hd : d.bare = d'.bare) {s s' : List Stage}
    (hs : s.map Stage.bare = s'.map Stage.bare) : (d.withStages s).bare = (d'.withStages s').bare := by
  have hpipeline : d.pipeline.bare = d'.pipeline.bare := (congrArg Draft.pipeline hd :)
  have hset (p : Pipeline) (s : List Stage) : { p with stages := some s }.bare =
      { p.bare with stages := some (s.map Stage.bare) } := rfl
  rw [withStages, withStages, ← resolveContainers_bare, ← resolveContainers_bare, hset, hset, hpipeline,
    hs]

/-! ### Reading both -/

/-- A root is read as one in which the stages that it makes are written out. -/
theorem readsAlike_of_stages (h : Retraced c.limits.maxFiles refs refs) {written : List Entry}
    (hwritten : WritesOut entries written stages) (hextends : "extends" ∉ entries.map (·.1.name))
    (hstages : "stages" ∉ entries.map (·.1.name))
    (himplicit : ∀ d : Draft, d.left = [] ∧ d.implicit = .nothing →
      (d.leaveAll (leftOf entries)).implicitStages refs c o =
        stageList refs c stages >>= fun s => pure (some s)) :
    ReadsAlike (ofToken? refs c (.mapping o entries)) (ofToken? refs c (.mapping o' written)) := by
  obtain ⟨before, after, keyPlace, hfilter, rfl⟩ := hwritten
  have hown : ∀ e ∈ before ++ after, isOwn e := by
    rw [← hfilter]
    exact fun e he => (List.mem_filter.mp he).2
  have hnot {name : String} (hname : name ∉ entries.map (·.1.name)) :
      name ∉ (before ++ after).map (·.1.name) := by
    rw [← hfilter]
    exact fun hmem => hname ((List.filter_sublist.map _).subset hmem)
  have hbefore : "extends" ∉ before.map (·.1.name) := fun hmem =>
    hnot hextends (List.map_append ▸ List.mem_append_left _ hmem)
  have hafter : "extends" ∉ after.map (·.1.name) := fun hmem =>
    hnot hextends (List.map_append ▸ List.mem_append_right _ hmem)
  rw [ofToken?_eq_implicit hextends himplicit,
    ofToken?_eq_written keyPlace hown (hnot hextends) (hnot hstages), hfilter, List.foldlM_append,
    bind_assoc]
  apply readsAlike_of_retraces
  · refine (retraces_ownEntries h hbefore rfl).bind fun d d' hd => ?_
    exact .swap (retraces_ownEntries h hafter hd) (retraces_stageList h rfl)
      fun _ _ _ _ hd hs => retraces_pure (Draft.withStages_bare hd hs)
  · refine (retraces_ownEntries h hbefore rfl).bind fun d d' hd => ?_
    exact .swap (retraces_stageList h rfl) (retraces_ownEntries h hafter hd)
      fun _ _ _ _ hs hd => retraces_pure (Draft.withStages_bare hd hs)

theorem implicitStages_of_steps (hsteps : "steps" ∈ entries.map (·.1.name))
    (hjob : "job" ∉ entries.map (·.1.name)) (hdeployment : "deployment" ∉ entries.map (·.1.name))
    (hd : d.left = [] ∧ d.implicit = .nothing) (o o' : Origin) :
    (d.leaveAll (leftOf entries)).implicitStages refs c o =
      stageList refs c (stagesOfSteps o' (leftOf entries)) >>= fun s => pure (some s) := by
  have hname := Job.yields_name refs c o
    (fun hmem => hjob ((mem_names_leftOf (by decide)).mp hmem))
    (fun hmem => hdeployment ((mem_names_leftOf (by decide)).mp hmem))
  rw [implicitStages_leaveAll hd, implicitOf, if_pos hsteps, stageList_stagesOfSteps refs c o' o,
    bind_assoc]
  refine bind_congr_of_yields hname fun job hnone => ?_
  rw [pure_bind, ← hnone]

theorem implicitStages_of_jobs (hsteps : "steps" ∉ entries.map (·.1.name))
    (hjobs : "jobs" ∈ entries.map (·.1.name)) (hstage : "stage" ∉ entries.map (·.1.name))
    (hd : d.left = [] ∧ d.implicit = .nothing) (o o' : Origin) :
    (d.leaveAll (leftOf entries)).implicitStages refs c o =
      stageList refs c (stagesOfJobs o' (leftOf entries)) >>= fun s => pure (some s) := by
  have hname := Stage.yields_name refs c o
    (fun hmem => hstage ((mem_names_leftOf (by decide)).mp hmem))
  rw [implicitStages_leaveAll hd, implicitOf, if_neg hsteps, if_pos hjobs,
    stageList_stagesOfJobs refs c o' o, bind_assoc]
  refine bind_congr_of_yields hname fun stage hnone => ?_
  rw [pure_bind, ← hnone]

/-- **A root is read as if its stage were written out**: the stage of a job with its steps, or that of
its jobs, with all that the pipeline does not read itself in the job or in the stage. -/
theorem readsAlike_of_writesOut (n : Nat) (c : Context) (o o' o'' : Origin)
    {entries written : List Entry}
    (hkeys : ∀ name ∈ ["stages", "extends", "job", "deployment", "stage"],
      name ∉ entries.map (·.1.name)) :
    ("steps" ∈ entries.map (·.1.name) → "jobs" ∉ entries.map (·.1.name) →
      WritesOut entries written (stagesOfSteps o'' (leftOf entries)) →
      ReadsAlike (ofToken? (references n) c (.mapping o entries))
        (ofToken? (references n) c (.mapping o' written))) ∧
    ("jobs" ∈ entries.map (·.1.name) → "steps" ∉ entries.map (·.1.name) →
      WritesOut entries written (stagesOfJobs o'' (leftOf entries)) →
      ReadsAlike (ofToken? (references n) c (.mapping o entries))
        (ofToken? (references n) c (.mapping o' written))) := by
  have hrefs : Retraced c.limits.maxFiles (references n) (references n) := retraced_references _ n 0
  simp only [List.forall_mem_cons, List.not_mem_nil, false_implies, implies_true, and_true] at hkeys
  obtain ⟨hstages, hextends, hjob, hdeployment, hstage⟩ := hkeys
  constructor
  · intro hsteps _ hwritten
    exact readsAlike_of_stages hrefs hwritten hextends hstages fun d hd =>
      implicitStages_of_steps hsteps hjob hdeployment hd o o''
  · intro hjobs hsteps hwritten
    exact readsAlike_of_stages hrefs hwritten hextends hstages fun d hd =>
      implicitStages_of_jobs hsteps hjobs hstage hd o o''

/-- Steps, jobs and variables that are shared, and room for two files. -/
def shared : Context where
  files := Files.inMemory
    [⟨none, "steps.yml", "steps:\n- script: make\n"⟩, ⟨none, "jobs.yml", "jobs:\n- job: make\n"⟩,
      ⟨none, "variables.yml", "variables:\n  level: 1\n"⟩]
  schema := .standard
  limits := { maxFiles := 2 }

/-- A reference to what is shared under a key. -/
def sharedEntry (key : String) : Entry :=
  madeEntry (key, .ofItems [.ofPairs [("template", .ofText (key ++ ".yml"))]])

/-- A root with variables and with steps or jobs that are shared. -/
def sharedRoot (key : String) : List Entry :=
  [sharedEntry "variables", sharedEntry key, madeEntry ("displayName", .ofText "Make")]

/-- The same root with its stages before the variables. -/
def writtenRoot (stages : Token) : List Entry :=
  [madeEntry ("stages", stages), sharedEntry "variables"]

theorem writesOut_shared :
    (∃ p p' j j', (ofToken? (references 2) shared (.mapping .unknown (sharedRoot "steps"))).run.run {} =
        some (.ok p, j) ∧
      (ofToken? (references 2) shared (.mapping .unknown (writtenRoot
        (stagesOfSteps .unknown (leftOf (sharedRoot "steps")))))).run.run {} = some (.ok p', j') ∧
      p.bare = p'.bare) ∧
    ∃ p p' j j', (ofToken? (references 2) shared (.mapping .unknown (sharedRoot "jobs"))).run.run {} =
        some (.ok p, j) ∧
      (ofToken? (references 2) shared (.mapping .unknown (writtenRoot
        (stagesOfJobs .unknown (leftOf (sharedRoot "jobs")))))).run.run {} = some (.ok p', j') ∧
      p.bare = p'.bare := by
  have hwrites {key : String} (h : isOwn (sharedEntry key) = false) (stages : Token) :
      WritesOut (sharedRoot key) (writtenRoot stages) stages := by
    refine ⟨[], [sharedEntry "variables"], .unknown, ?_, rfl⟩
    rw [sharedRoot, List.filter_cons_of_pos (by decide), List.filter_cons_of_neg (by simp [h])]
    rfl
  have hreturns {x y : Resolve Pipeline} (halike : ReadsAlike x y)
      (hrun : (x.run.run {}).any (·.1.isOk) = true) :
      ∃ p p' j j', x.run.run {} = some (.ok p, j) ∧ y.run.run {} = some (.ok p', j') ∧
        p.bare = p'.bare := by
    rw [Option.any_eq_true] at hrun
    obtain ⟨⟨outcome, j⟩, hrun, hok⟩ := hrun
    cases outcome with
    | error d => cases hok
    | ok p =>
        obtain ⟨p', j', hrun'⟩ := (halike {}).1.mp ⟨p, j, hrun⟩
        exact ⟨p, p', j, j', hrun, hrun', (halike {}).2 _ _ _ _ hrun hrun'⟩
  constructor
  · refine hreturns ((readsAlike_of_writesOut 2 shared .unknown .unknown .unknown ?_).1 ?_ ?_ ?_) ?_
    · decide
    · decide
    · decide
    · exact hwrites (by decide) _
    · decide +kernel
  · refine hreturns ((readsAlike_of_writesOut 2 shared .unknown .unknown .unknown ?_).2 ?_ ?_ ?_) ?_
    · decide
    · decide
    · decide
    · exact hwrites (by decide) _
    · decide +kernel

end PipelineExpansion.Pipeline
