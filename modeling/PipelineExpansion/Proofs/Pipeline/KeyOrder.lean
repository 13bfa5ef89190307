import PipelineExpansion.Proofs.Pipeline.Extension
import PipelineExpansion.Proofs.Pipeline.WrittenOut
import PipelineExpansion.Proofs.Template.DistinctNames

/-!
# The order of keys

The keys of a root may be written in any order. What an entry is read to goes into the fields of its key,
and the entry looks at no field: it is read as it would be at the start, and then its fields are taken
over. So entries with different keys do not see one another, and composing one and then the other retraces
composing them the other way round; this is so of a root, and of the job or the stage that the entries it
leaves over make. Which of the two they make depends only on which keys there are.

A job takes its name from two keys, so with both the later one counts. The job that a root makes loses its
name, and these jobs are compared without it.

## Main results

* `Sets.retraces_of_perm`: entries whose fields are apart are read in any order.
* `readsAlike_of_perm`: roots with the same entries are read to the same pipeline, up to the numbers of
  files; one is refused just if the other is.
-/

namespace PipelineExpansion.Pipeline

open Template (Context DistinctNames Entry Origin Resolve Token bareEntry)
open Template.Resolve

variable {maximum : Nat} {refs : References} {c : Context} {e : Entry} {entries entries' : List Entry}
  {α β γ : Type}

/-! ### Fields under keys -/

/-- The field under a key when an entry has been read: the new value, if the key is that of the entry. -/
def pick (key name : String) (new old : α) : α := if name = key then new else old

theorem map_pick (f : α → β) (key name : String) (new old : Option α) :
    (pick key name new old).map f = pick key name (new.map f) (old.map f) := by
  unfold pick
  split <;> rfl

theorem pick_comm {name name' : String} (h : name ≠ name') (key : String) (a b old : α) :
    pick key name' b (pick key name a old) = pick key name a (pick key name' b old) := by
  unfold pick
  by_cases hname : name = key
  · have hname' : name' ≠ key := fun heq => h (hname.trans heq.symm)
    rw [if_pos hname, if_neg hname', if_pos hname]
  · rw [if_neg hname, if_neg hname]

/-- Entries set what is under their names: each is read as it is with nothing read before, `take` moves
over what is under its name, and entries of different names move over different things. -/
structure Sets (maximum : Nat) (own : Entry → Prop) (step : α → Entry → Resolve α) (start : α)
    (take : α → String → α → α) (view : α → γ) : Prop where
  step_eq : ∀ s e, own e → step s e = step start e >>= fun new => pure (take s e.1.name new)
  again : ∀ e, own e → Retraces maximum view (step start e) (step start e)
  congr : ∀ {s s' a a' : α} (name : String), view s = view s' → view a = view a' →
    view (take s name a) = view (take s' name a')
  comm : ∀ {name name' : String}, name ≠ name' → ∀ s a b,
    view (take (take s name a) name' b) = view (take (take s name' b) name a)

section Sets

variable {own : Entry → Prop} {step : α → Entry → Resolve α} {start : α} {take : α → String → α → α}
  {view : α → γ} (h : Sets maximum own step start take view)

include h

theorem Sets.retraces_step {s s' : α} (hs : view s = view s') (he : own e) :
    Retraces maximum view (step s e) (step s' e) := by
  rw [h.step_eq s e he, h.step_eq s' e he]
  exact (h.again e he).map fun a a' ha => h.congr _ hs ha

theorem Sets.retraces_foldlM (hown : ∀ e ∈ entries, own e) {s s' : α} (hs : view s = view s') :
    Retraces maximum view (entries.foldlM step s) (entries.foldlM step s') := by
  induction entries generalizing s s' with
  | nil => exact retraces_pure hs
  | cons e rest ih =>
      obtain ⟨he, hrest⟩ := List.forall_mem_cons.mp hown
      rw [List.foldlM_cons, List.foldlM_cons]
      exact (h.retraces_step hs he).bind fun s s' hs => ih hrest hs

/-- Two entries of different names are read in either order. -/
theorem Sets.retraces_swap {first second : Entry} (hfirst : own first) (hsecond : own second)
    (hne : first.1.name ≠ second.1.name) {s s' : α} (hs : view s = view s') :
    Retraces maximum view (step s first >>= (step · second)) (step s' second >>= (step · first)) := by
  have hboth {a b : Entry} (ha : own a) (hb : own b) (s : α) : (step s a >>= (step · b)) =
      step start a >>= fun x => step start b >>= fun y =>
        pure (take (take s a.1.name x) b.1.name y) := by
    rw [h.step_eq s a ha, bind_assoc]
    refine congrArg _ (funext fun x => ?_)
    rw [pure_bind, h.step_eq _ b hb]
  rw [hboth hfirst hsecond, hboth hsecond hfirst]
  refine (h.again first hfirst).swap (h.again second hsecond) fun a a' b b' ha hb => retraces_pure ?_
  rw [h.comm hne]
  exact h.congr _ (h.congr _ hs hb) ha

/-- **Entries whose fields are apart are read in any order.** -/
theorem Sets.retraces_of_perm (hperm : entries.Perm entries') (hnames : DistinctNames entries)
    (hown : ∀ e ∈ entries, own e) {s s' : α} (hs : view s = view s') :
    Retraces maximum view (entries.foldlM step s) (entries'.foldlM step s') := by
  induction hperm generalizing s s' with
  | nil => exact retraces_pure hs
  | cons e _ ih =>
      obtain ⟨he, hrest⟩ := List.forall_mem_cons.mp hown
      rw [List.foldlM_cons, List.foldlM_cons]
      exact (h.retraces_step hs he).bind fun s s' hs => ih (List.nodup_cons.mp hnames).2 hrest hs
  | swap first second rest =>
      obtain ⟨hsecond, hown⟩ := List.forall_mem_cons.mp hown
      obtain ⟨hfirst, hrest⟩ := List.forall_mem_cons.mp hown
      have hne : second.1.name ≠ first.1.name := by
        intro heq
        rw [DistinctNames, List.map_cons, List.map_cons, heq] at hnames
        exact (List.nodup_cons.mp hnames).1 List.mem_cons_self
      simp only [List.foldlM_cons, ← bind_assoc]
      refine (h.retraces_swap hsecond hfirst hne hs).bind fun s s' hs => ?_
      exact h.retraces_foldlM hrest hs
  | trans hfirst _ ih ih' =>
      have hmiddle := ih hnames hown hs
      have hnames' := (hfirst.map fun e : Entry => e.1.name).nodup hnames
      exact hmiddle.trans (ih' hnames' (fun e he => hown e (hfirst.mem_iff.mpr he)) rfl)

end Sets

/-! ### The entries of a pipeline -/

/-- A pipeline with what is under a key of another. -/
def take (p : Pipeline) (key : String) (new : Pipeline) : Pipeline where
  name := pick "name" key new.name p.name
  vars := pick "variables" key new.vars p.vars
  resources := pick "resources" key new.resources p.resources
  stages := pick "stages" key new.stages p.stages
  pool := pick "pool" key new.pool p.pool
  appendCommitMessageToRunName := pick "appendCommitMessageToRunName" key
    new.appendCommitMessageToRunName p.appendCommitMessageToRunName
  lockBehavior := pick "lockBehavior" key new.lockBehavior p.lockBehavior
  trigger := pick "trigger" key new.trigger p.trigger
  pr := pick "pr" key new.pr p.pr
  schedules := pick "schedules" key new.schedules p.schedules

/-- A draft with what is under a key of another. Nothing is left over under the keys of a pipeline. -/
def Draft.take (d : Draft) (key : String) (new : Draft) : Draft :=
  { d with
    pipeline := d.pipeline.take key new.pipeline
    base := pick "extends" key new.base d.base }

theorem Draft.bare_take (d : Draft) (key : String) (new : Draft) :
    (d.take key new).bare = d.bare.take key new.bare := by
  simp only [take, Pipeline.take, bare, Pipeline.bare, map_pick]

/-- An entry of a pipeline sets what is under its key. -/
theorem Draft.read_eq_take (d : Draft) (e : Entry) (he : isOwn e) :
    d.read refs c e = ({} : Draft).read refs c e >>= fun new => pure (d.take e.1.name new) := by
  obtain ⟨⟨o, name⟩, value⟩ := e
  have hname : name ∈ ownKeys := of_decide_eq_true he
  unfold read
  dsimp only
  split
  case h_6 | h_7 => exact absurd hname (by decide)
  case h_15 =>
    simp only [ownKeys, List.mem_cons, List.not_mem_nil, or_false] at hname
    grind
  all_goals simp [take, Pipeline.take, pick]

theorem Draft.sets (h : Extending c.limits.maxFiles refs refs) :
    Sets c.limits.maxFiles (fun e => isOwn e) (Draft.read refs c) {} Draft.take Draft.bare where
  step_eq := Draft.read_eq_take
  again _ _ := retraces_readRoot h rfl rfl
  congr name hs ha := by rw [bare_take, bare_take, hs, ha]
  comm h s a b := by simp only [take, Pipeline.take, pick_comm h]

/-! ### The entries of a stage -/

/-- A stage with what is under a key of another. -/
def Stage.take (s : Stage) (key : String) (new : Stage) : Stage where
  name := pick "stage" key new.name s.name
  displayName := pick "displayName" key new.displayName s.displayName
  dependsOn := pick "dependsOn" key new.dependsOn s.dependsOn
  condition := pick "condition" key new.condition s.condition
  vars := pick "variables" key new.vars s.vars
  jobs := pick "jobs" key new.jobs s.jobs
  pool := pick "pool" key new.pool s.pool
  lockBehavior := pick "lockBehavior" key new.lockBehavior s.lockBehavior
  templateContext := pick "templateContext" key new.templateContext s.templateContext

theorem Stage.bare_take (s : Stage) (key : String) (new : Stage) :
    (s.take key new).bare = s.bare.take key new.bare := by
  simp only [take, bare, map_pick]

theorem Stage.readPlain_eq_take (s : Stage) (e : Entry) :
    s.readPlain e = ({} : Stage).readPlain e >>= fun new => pure (s.take e.1.name new) := by
  obtain ⟨⟨o, name⟩, value⟩ := e
  unfold readPlain
  dsimp only
  split
  case h_7 => exact congrArg Except.ok (by simp [take, pick])
  case h_8 => rfl
  all_goals simp [take, pick]

/-- An entry of a stage sets what is under its key. -/
theorem Stage.read_eq_take (s : Stage) (e : Entry) :
    s.read refs c e = ({} : Stage).read refs c e >>= fun new => pure (s.take e.1.name new) := by
  unfold read
  split
  case h_1 | h_2 => simp [take, pick, *]
  case h_3 =>
    rw [readPlain_eq_take]
    exact ofExcept_bind _ _

theorem Stage.sets (h : Retraced c.limits.maxFiles refs refs) :
    Sets c.limits.maxFiles (fun _ => True) (Stage.read refs c) {} Stage.take Stage.bare where
  step_eq s e _ := s.read_eq_take e
  again _ _ := retraces_readStage h rfl rfl
  congr name hs ha := by rw [bare_take, bare_take, hs, ha]
  comm h s a b := by simp only [take, pick_comm h]

/-! ### The entries of a job -/

/-- A job with what is under a key of another. Its strategy is read when all entries have been. -/
def Job.take (j : Job) (key : String) (new : Job) : Job where
  name := if key = "job" ∨ key = "deployment" then new.name else j.name
  deployment := pick "deployment" key new.deployment j.deployment
  displayName := pick "displayName" key new.displayName j.displayName
  dependsOn := pick "dependsOn" key new.dependsOn j.dependsOn
  condition := pick "condition" key new.condition j.condition
  strategy := j.strategy
  continueOnError := pick "continueOnError" key new.continueOnError j.continueOnError
  container := pick "container" key new.container j.container
  timeoutInMinutes := pick "timeoutInMinutes" key new.timeoutInMinutes j.timeoutInMinutes
  cancelTimeoutInMinutes := pick "cancelTimeoutInMinutes" key new.cancelTimeoutInMinutes
    j.cancelTimeoutInMinutes
  vars := pick "variables" key new.vars j.vars
  services := pick "services" key new.services j.services
  steps := pick "steps" key new.steps j.steps
  templateContext := pick "templateContext" key new.templateContext j.templateContext
  environment := pick "environment" key new.environment j.environment
  pool := pick "pool" key new.pool j.pool
  uses := pick "uses" key new.uses j.uses
  workspace := pick "workspace" key new.workspace j.workspace

/-- A draft of a job with what is under a key of another. -/
def JobDraft.take (d : JobDraft) (key : String) (new : JobDraft) : JobDraft where
  job := d.job.take key new.job
  strategy := pick "strategy" key new.strategy d.strategy

/-- A job without its name and the numbers of files. -/
def Job.unnamed (j : Job) : Job := { j.bare with name := none }

/-- A draft of a job without its name and the numbers of files. -/
def JobDraft.unnamed (d : JobDraft) : JobDraft := ⟨d.job.unnamed, d.strategy.map Token.bare⟩

theorem Job.unnamed_take (j : Job) (key : String) (new : Job) :
    (j.take key new).unnamed = { j.unnamed.take key new.unnamed with name := none } := by
  simp only [take, unnamed, bare, map_pick]

theorem JobDraft.unnamed_take (d : JobDraft) (key : String) (new : JobDraft) :
    (d.take key new).unnamed =
      ⟨{ d.unnamed.job.take key new.unnamed.job with name := none },
        pick "strategy" key new.unnamed.strategy d.unnamed.strategy⟩ := by
  simp only [take, unnamed, Job.unnamed_take, map_pick]

theorem Job.readPlain_eq_take (j : Job) (e : Entry) :
    j.readPlain e = ({} : Job).readPlain e >>= fun new => pure (j.take e.1.name new) := by
  obtain ⟨⟨o, name⟩, value⟩ := e
  unfold readPlain
  dsimp only
  split
  case h_11 => exact congrArg Except.ok (by simp [take, pick])
  case h_16 => rfl
  all_goals simp [take, pick]

/-- An entry of a job sets what is under its key. -/
theorem JobDraft.read_eq_take (d : JobDraft) (e : Entry) :
    d.read refs c e = ({} : JobDraft).read refs c e >>= fun new => pure (d.take e.1.name new) := by
  unfold read
  split
  case h_1 | h_2 | h_3 => simp [take, Job.take, pick, *]
  case h_4 _ hstrategy _ _ =>
    have hset (new : Job) : (⟨d.job.take e.1.name new, d.strategy⟩ : JobDraft) =
        d.take e.1.name ⟨new, none⟩ := by
      rw [take, pick, if_neg hstrategy]
    rw [Job.readPlain_eq_take, ofExcept_bind, bind_assoc, bind_assoc]
    refine congrArg _ (funext fun new => ?_)
    exact (ofExcept_ok_bind _ _).trans (congrArg pure (hset new))

theorem JobDraft.sets (h : Retraced c.limits.maxFiles refs refs) :
    Sets c.limits.maxFiles (fun _ => True) (JobDraft.read refs c) {} JobDraft.take
      JobDraft.unnamed where
  step_eq d e _ := d.read_eq_take e
  again _ _ := (retraces_readJobDraft h rfl rfl).coarsen fun d d' hd => by
    have hunnamed (d : JobDraft) : d.unnamed = ⟨{ d.bare.job with name := none }, d.bare.strategy⟩ := rfl
    rw [hunnamed, hunnamed, hd]
  congr name hs ha := by rw [unnamed_take, unnamed_take, hs, ha]
  comm h s a b := by
    simp only [take, Job.take, unnamed, Job.unnamed, Job.bare, pick_comm h]

/-- Without its name, a job is finished again. -/
theorem retraces_finishJob (h : Retraced c.limits.maxFiles refs refs) {d d' : JobDraft}
    (hd : d.unnamed = d'.unnamed) :
    Retraces c.limits.maxFiles Job.unnamed (d.finish refs c) (d'.finish refs c) := by
  obtain ⟨job, strategy⟩ := d
  obtain ⟨job', strategy'⟩ := d'
  obtain ⟨hjob, hstrategy⟩ := JobDraft.mk.inj hd
  have hdeployment : job.deployment = job'.deployment := (congrArg Job.deployment hjob :)
  unfold JobDraft.finish
  cases strategy with
  | none =>
      obtain rfl : strategy' = none := Option.map_eq_none_iff.mp hstrategy.symm
      exact retraces_pure hjob
  | some strategy =>
      obtain ⟨strategy', rfl, hsame⟩ := Option.map_eq_some_iff.mp hstrategy.symm
      have hread : Retraces c.limits.maxFiles id
          (Strategy.ofToken? refs c strategy job.deployment)
          (Strategy.ofToken? refs c strategy' job'.deployment) := by
        rw [hdeployment]
        exact retraces_strategy h hsame.symm _
      refine hread.then fun s => retraces_pure ?_
      exact (congrArg (fun j : Job => { j with strategy := some s }) hjob :)

/-! ### The whole root -/

theorem implicitOf_perm {names names' : List String} (hperm : names.Perm names') :
    implicitOf names = implicitOf names' := by
  simp only [implicitOf, hperm.mem_iff]

/-- The stages of a root: what some entries make, or those of its own. -/
def stagesOf (refs : References) (c : Context) (o : Origin) (left : List Entry) (i : Implicit)
    (d : Draft) : Resolve (Option (List Stage)) :=
  match i with
  | .nothing => pure d.pipeline.stages
  | .job => Job.ofToken? refs c (.mapping o left) true >>= fun job =>
      pure (some [{ jobs := some [{ job with name := none }] }])
  | .stage => Stage.ofToken? refs c (.mapping o left) true >>= fun stage =>
      pure (some [{ stage with name := none }])

theorem ofToken?_eq_stagesOf (refs : References) (c : Context) (o : Origin) (entries : List Entry) :
    ofToken? refs c (.mapping o entries) =
      ownDraft refs c entries >>= fun d =>
        stagesOf refs c o (leftOf entries) (implicitOf (entries.map (·.1.name))) d >>= fun stages =>
          Resolve.ofExcept (d.finish stages) := by
  have hleft : Yields (ownDraft refs c entries) fun d => d.left = [] ∧ d.implicit = .nothing :=
    fun _ _ _ hrun => ownDraft_left hrun
  rw [ofToken?_eq]
  refine bind_congr_of_yields hleft fun d hd => ?_
  rw [implicitStages_leaveAll hd]
  rfl

section Order

variable (h : Extending c.limits.maxFiles refs refs) (hperm : entries.Perm entries')
  (hnames : DistinctNames entries)

include h hperm hnames

theorem retraces_ownDraft_of_perm : Retraces c.limits.maxFiles Draft.bare (ownDraft refs c entries)
    (ownDraft refs c entries') :=
  (Draft.sets h).retraces_of_perm (hperm.filter _) (hnames.sublist (List.filter_sublist.map _))
    (fun _ he => (List.mem_filter.mp he).2) rfl

theorem retraces_implicitJob_of_perm (o o' : Origin) : Retraces c.limits.maxFiles Job.unnamed
    (Job.ofToken? refs c (.mapping o entries) true)
    (Job.ofToken? refs c (.mapping o' entries') true) := by
  rw [Job.ofToken?_implicit, Job.ofToken?_implicit]
  have hread := (JobDraft.sets h.toRetraced).retraces_of_perm hperm hnames (fun _ _ => trivial)
    (rfl : JobDraft.unnamed {} = JobDraft.unnamed {})
  exact hread.bind fun d d' hd => retraces_finishJob h.toRetraced hd

theorem retraces_implicitStage_of_perm (o o' : Origin) : Retraces c.limits.maxFiles Stage.bare
    (Stage.ofToken? refs c (.mapping o entries) true)
    (Stage.ofToken? refs c (.mapping o' entries') true) := by
  rw [Stage.ofToken?_implicit, Stage.ofToken?_implicit]
  exact (Stage.sets h.toRetraced).retraces_of_perm hperm hnames (fun _ _ => trivial) rfl

theorem retraces_stagesOf_of_perm (o o' : Origin) (i : Implicit) {d d' : Draft}
    (hd : d.bare = d'.bare) : Retraces c.limits.maxFiles (Option.map (List.map Stage.bare))
      (stagesOf refs c o entries i d) (stagesOf refs c o' entries' i d') := by
  cases i with
  | nothing =>
      exact retraces_pure (congrArg (fun d : Draft => d.pipeline.stages) hd :)
  | job =>
      refine (retraces_implicitJob_of_perm h hperm hnames o o').map fun job job' hjob => ?_
      exact congrArg (fun job : Job => some [({ jobs := some [job] } : Stage)]) hjob
  | stage =>
      refine (retraces_implicitStage_of_perm h hperm hnames o o').map fun stage stage' hstage => ?_
      have hname : { stage.bare with name := none } = { stage'.bare with name := none } := by
        rw [hstage]
      exact congrArg (fun stage : Stage => some [stage]) hname

/-- A root is composed again with its entries in another order. -/
theorem retraces_ofToken?_of_perm (o o' : Origin) : Retraces c.limits.maxFiles Pipeline.bare
    (ofToken? refs c (.mapping o entries)) (ofToken? refs c (.mapping o' entries')) := by
  have hleft : DistinctNames (leftOf entries) := hnames.sublist (List.filter_sublist.map _)
  rw [ofToken?_eq_stagesOf, ofToken?_eq_stagesOf, implicitOf_perm (hperm.map fun e => e.1.name)]
  refine (retraces_ownDraft_of_perm h hperm hnames).bind fun d d' hd => ?_
  refine (retraces_stagesOf_of_perm h (hperm.filter _) hleft o o' _ hd).bind ?_
  exact fun stages stages' hstages => retraces_finish hd hstages

end Order

/-- **The order of keys does not matter**: of two roots with the same entries, whose keys are distinct,
one is read just if the other is, and to the same pipeline, up to the numbers of files. -/
theorem readsAlike_of_perm (n : Nat) (c : Context) (o o' : Origin) {entries entries' : List Entry}
    (hperm : entries.Perm entries') (hnames : DistinctNames entries) :
    ReadsAlike (ofToken? (references n) c (.mapping o entries))
      (ofToken? (references n) c (.mapping o' entries')) := by
  have h : Extending c.limits.maxFiles (references n) (references n) := extending_references _ n 0
  have hnames' : DistinctNames entries' := (hperm.map fun e : Entry => e.1.name).nodup hnames
  exact readsAlike_of_retraces (retraces_ofToken?_of_perm h hperm hnames o o')
    (retraces_ofToken?_of_perm h hperm.symm hnames' o' o)

/-- Files that are shared are read in another order then, and have other numbers. -/
theorem readsAlike_reverse_sharedRoot :
    ∃ p p' j j', (ofToken? (references 2) shared (.mapping .unknown (sharedRoot "steps"))).run.run {} =
        some (.ok p, j) ∧
      (ofToken? (references 2) shared (.mapping .unknown (sharedRoot "steps").reverse)).run.run {} =
        some (.ok p', j') ∧
      p.bare = p'.bare := by
  have halike : ReadsAlike (ofToken? (references 2) shared (.mapping .unknown (sharedRoot "steps")))
      (ofToken? (references 2) shared (.mapping .unknown (sharedRoot "steps").reverse)) :=
    readsAlike_of_perm 2 shared .unknown .unknown (List.reverse_perm _).symm (by decide)
  have hread : ((ofToken? (references 2) shared
      (.mapping .unknown (sharedRoot "steps"))).run.run {}).any (·.1.isOk) = true := by
    decide +kernel
  rw [Option.any_eq_true] at hread
  obtain ⟨⟨outcome, j⟩, hrun, hok⟩ := hread
  cases outcome with
  | error d => cases hok
  | ok p =>
      obtain ⟨p', j', hrun'⟩ := (halike {}).1.mp ⟨p, j, hrun⟩
      exact ⟨p, p', j, j', hrun, hrun', (halike {}).2 _ _ _ _ hrun hrun'⟩

end PipelineExpansion.Pipeline
