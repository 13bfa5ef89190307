import PipelineExpansion.Pipeline.Compose
import PipelineExpansion.Proofs.Template.Resolve

/-!
# What becomes of a root

A pipeline reads the entries of a root that are its own (`ownKeys`) and leaves the others over. Those
make the job or the stage that is not written out, if there are steps or jobs among them. So a root is
read as if its own entries came first.

## Main results

* `ofToken?_eq`: a root is its own entries, and then what the others make.
* `implicitStages_leaveAll`: the stages are those of the implicit job or stage, if there is one.
* `ofToken?_filter_isOwn`: without steps and without jobs, what is left over is not looked at.
-/

namespace PipelineExpansion.Pipeline

open Template (Context Entry Journal Resolve Token)
open Template.Resolve

variable {refs : References} {c : Context} {d : Draft} {e : Entry} {entries : List Entry}
  {j j' : Journal}

/-! ### Entries of a pipeline, and others -/

/-- The keys of a root that a pipeline itself reads. -/
def ownKeys : List String :=
  ["name", "parameters", "variables", "extends", "stages", "resources", "pool",
    "appendCommitMessageToRunName", "lockBehavior", "trigger", "pr", "schedules"]

/-- Whether an entry of a root is read by the pipeline itself. -/
def isOwn (e : Entry) : Bool := e.1.name ∈ ownKeys

/-- What left-over entries make, once one of a name is among them. -/
def Implicit.add (i : Implicit) (name : String) : Implicit :=
  match name with
  | "steps" => .job
  | "jobs" => if i = .job then .job else .stage
  | _ => i

theorem Implicit.add_of_ne {name : String} (hsteps : name ≠ "steps") (hjobs : name ≠ "jobs")
    (i : Implicit) : i.add name = i := by
  unfold Implicit.add
  split
  · exact absurd rfl hsteps
  · exact absurd rfl hjobs
  · rfl

/-- Leaves an entry over. -/
def Draft.leave (d : Draft) (e : Entry) : Draft :=
  { d with left := d.left ++ [e], implicit := d.implicit.add e.1.name }

theorem Draft.read_of_not_isOwn (h : ¬ isOwn e) : d.read refs c e = pure (d.leave e) := by
  obtain ⟨⟨o, name⟩, value⟩ := e
  have hname : name ∉ ownKeys := fun hname => h (decide_eq_true hname)
  unfold Draft.read
  dsimp only
  split
  case h_6 | h_7 => rfl
  case h_15 => grind [Draft.leave, Implicit.add_of_ne]
  all_goals exact absurd (by decide) hname

/-- What the pipeline reads itself does not depend on what was left over. -/
theorem Draft.read_leave (h : isOwn e) (other : Entry) :
    (d.leave other).read refs c e = d.read refs c e >>= fun d' => pure (d'.leave other) := by
  obtain ⟨⟨o, name⟩, value⟩ := e
  have hname : name ∈ ownKeys := of_decide_eq_true h
  unfold Draft.read
  dsimp only
  split
  case h_6 | h_7 => exact absurd hname (by decide)
  case h_15 =>
    simp only [ownKeys, List.mem_cons, List.not_mem_nil, or_false] at hname
    grind
  all_goals simp only [bind_assoc, pure_bind, Draft.leave]

/-- Leaves entries over. -/
def Draft.leaveAll (d : Draft) (entries : List Entry) : Draft := entries.foldl Draft.leave d

/-- The entries of a root are read as if its own came first and the others were left over then. -/
theorem Draft.foldlM_read_eq (entries : List Entry) (d : Draft) :
    entries.foldlM (Draft.read refs c) d =
      (entries.filter isOwn).foldlM (Draft.read refs c) d >>= fun d' =>
        pure (d'.leaveAll (entries.filter (!isOwn ·))) := by
  induction entries generalizing d with
  | nil => rfl
  | cons e rest ih =>
      rw [List.foldlM_cons]
      by_cases he : isOwn e
      · rw [List.filter_cons_of_pos he, List.filter_cons_of_neg (by simp [he]), List.foldlM_cons,
          bind_assoc]
        exact congrArg _ (funext ih)
      · have hleave (d : Draft) : (rest.filter isOwn).foldlM (Draft.read refs c) (d.leave e) =
            (rest.filter isOwn).foldlM (Draft.read refs c) d >>= fun d' => pure (d'.leave e) :=
          foldlM_comm_of_mem (fun _ _ ha => Draft.read_leave (List.mem_filter.mp ha).2 e) d
        rw [List.filter_cons_of_neg he, List.filter_cons_of_pos (by simp [he]),
          Draft.read_of_not_isOwn he, pure_bind, ih, hleave, bind_assoc]
        simp only [pure_bind]
        rfl

theorem Draft.leaveAll_eq (d : Draft) (entries : List Entry) :
    d.leaveAll entries =
      { d with
        left := d.left ++ entries
        implicit := (entries.map (·.1.name)).foldl Implicit.add d.implicit } := by
  induction entries generalizing d with
  | nil => simp [leaveAll]
  | cons e rest ih =>
      have hcons : d.leaveAll (e :: rest) = (d.leave e).leaveAll rest := rfl
      rw [hcons, ih]
      simp [leave]

/-- Steps make a job, jobs without steps a stage. -/
theorem foldl_add (names : List String) (i : Implicit) :
    names.foldl Implicit.add i =
      if i = .job ∨ "steps" ∈ names then .job
      else if i = .stage ∨ "jobs" ∈ names then .stage else .nothing := by
  induction names generalizing i with
  | nil => cases i <;> rfl
  | cons name rest ih =>
      rw [List.foldl_cons, ih]
      unfold Implicit.add
      cases i <;> grind

/-- What is left of a root makes a job if there are steps, or else a stage if there are jobs. -/
def implicitOf (names : List String) : Implicit :=
  if "steps" ∈ names then .job else if "jobs" ∈ names then .stage else .nothing

theorem foldl_add_nothing (names : List String) :
    names.foldl Implicit.add .nothing = implicitOf names := by
  rw [foldl_add]
  simp [implicitOf]

/-- The pipeline of a root, once its own entries and its stages are known. -/
def Draft.finish (d : Draft) (stages : Option (List Stage)) : Except Diagnostic Pipeline :=
  match d.base with
  | none => .ok { d.pipeline with stages := stages }.resolveContainers
  | some base => do return (← { d.pipeline with stages := stages }.merge base).resolveContainers

/-- What a root leaves over. -/
def leftOf (entries : List Entry) : List Entry := entries.filter (!isOwn ·)

/-- What the own entries of a root come to. -/
def ownDraft (refs : References) (c : Context) (entries : List Entry) : Resolve Draft :=
  (entries.filter isOwn).foldlM (Draft.read refs c) {}

/-- A root is read entry by entry, and finished then. -/
theorem ofToken?_eq_finish (refs : References) (c : Context) (t : Token) :
    ofToken? refs c t = Resolve.ofExcept (t.expectMapping "pipeline-root") >>= fun entries =>
      entries.foldlM (Draft.read refs c) {} >>= fun d =>
        d.implicitStages refs c t.origin >>= fun stages => Resolve.ofExcept (d.finish stages) := by
  unfold ofToken?
  refine congrArg _ (funext fun entries => congrArg _ (funext fun d => ?_))
  refine congrArg _ (funext fun stages => ?_)
  unfold Draft.finish
  cases d.base with
  | none => rfl
  | some base =>
      exact (ofExcept_bind (merge { d.pipeline with stages := stages } base)
        fun p => pure p.resolveContainers).symm

theorem ofToken?_eq (refs : References) (c : Context) (o : Template.Origin) (entries : List Entry) :
    ofToken? refs c (.mapping o entries) =
      ownDraft refs c entries >>= fun d =>
        (d.leaveAll (leftOf entries)).implicitStages refs c o >>= fun stages =>
          Resolve.ofExcept (d.finish stages) := by
  rw [ofToken?_eq_finish]
  simp only [Token.expectMapping, Token.entries?, ofExcept_ok_bind]
  rw [Draft.foldlM_read_eq, bind_assoc]
  refine congrArg _ (funext fun d => ?_)
  rw [pure_bind]
  simp only [Draft.leaveAll_eq, Draft.finish]
  rfl

/-! ### What the own entries come to -/

theorem Draft.yields_read (h : isOwn e) (d : Draft) :
    Yields (d.read refs c e) fun d' =>
      d'.left = d.left ∧ d'.implicit = d.implicit ∧ (e.1.name ≠ "extends" → d'.base = d.base) ∧
        (e.1.name ≠ "stages" → d'.pipeline.stages = d.pipeline.stages) := by
  obtain ⟨⟨o, name⟩, value⟩ := e
  have hname : name ∈ ownKeys := of_decide_eq_true h
  unfold Draft.read
  dsimp only
  split
  case h_2 | h_12 | h_13 | h_14 => exact yields_pure ⟨rfl, rfl, fun _ => rfl, fun _ => rfl⟩
  case h_4 =>
    refine yields_bind_of_forall fun _ => yields_bind_of_forall fun _ => yields_pure ?_
    exact ⟨rfl, rfl, fun h => absurd rfl h, fun _ => rfl⟩
  case h_5 =>
    refine yields_bind_of_forall fun _ => yields_pure ?_
    exact ⟨rfl, rfl, fun _ => rfl, fun h => absurd rfl h⟩
  case h_6 | h_7 => exact absurd hname (by decide)
  case h_15 =>
    simp only [ownKeys, List.mem_cons, List.not_mem_nil, or_false] at hname
    grind
  all_goals
    exact yields_bind_of_forall fun _ => yields_pure ⟨rfl, rfl, fun _ => rfl, fun _ => rfl⟩

/-- What the own entries keep, they have kept when all are read. -/
theorem ownDraft_keeps {P : Draft → Prop} {d : Draft}
    (hread : ∀ (d : Draft), ∀ e ∈ entries, isOwn e → P d → Yields (d.read refs c e) P) (h : P {})
    (hrun : (ownDraft refs c entries).run.run j = some (.ok d, j')) : P d := by
  refine yields_foldlM_of_mem (fun d e he hd => ?_) h _ _ _ hrun
  obtain ⟨hmem, hown⟩ := List.mem_filter.mp he
  exact hread d e hmem hown hd

/-- The own entries leave nothing over. -/
theorem ownDraft_left {d : Draft} (hrun : (ownDraft refs c entries).run.run j = some (.ok d, j')) :
    d.left = [] ∧ d.implicit = .nothing := by
  refine ownDraft_keeps (P := fun d => d.left = [] ∧ d.implicit = .nothing) ?_ ⟨rfl, rfl⟩ hrun
  rintro d e - hown ⟨hleft, himplicit⟩ j d' j' hrun
  obtain ⟨hleft', himplicit', -⟩ := Draft.yields_read hown d j d' j' hrun
  exact ⟨hleft'.trans hleft, himplicit'.trans himplicit⟩

/-- Without an entry for it, nothing is extended. -/
theorem ownDraft_base {d : Draft} (h : "extends" ∉ entries.map (·.1.name))
    (hrun : (ownDraft refs c entries).run.run j = some (.ok d, j')) : d.base = none := by
  refine ownDraft_keeps (P := fun d => d.base = none) ?_ rfl hrun
  intro d e he hown hbase j d' j' hrun
  obtain ⟨-, -, hbase', -⟩ := Draft.yields_read hown d j d' j' hrun
  have hname : e.1.name ≠ "extends" := fun heq => h (List.mem_map.mpr ⟨e, he, heq⟩)
  exact (hbase' hname).trans hbase

/-! ### The implicit job and the implicit stage -/

/-- A job that has been read gets its strategy. -/
def JobDraft.finish (refs : References) (c : Context) (d : JobDraft) : Resolve Job :=
  match d.strategy with
  | none => return d.job
  | some strategy =>
    return { d.job with strategy := some (← Strategy.ofToken? refs c strategy d.job.deployment) }

/-- An implicit job is made of all of its entries. -/
theorem Job.ofToken?_implicit (refs : References) (c : Context) (o : Template.Origin)
    (entries : List Entry) :
    Job.ofToken? refs c (.mapping o entries) true =
      entries.foldlM (JobDraft.read refs c) {} >>= JobDraft.finish refs c := by
  unfold Job.ofToken?
  simp only [Token.expectMapping, Token.entries?, ofExcept_ok_bind, Bool.not_true, Bool.false_and,
    Bool.false_eq_true, if_false]
  rfl

theorem Stage.ofToken?_implicit (refs : References) (c : Context) (o : Template.Origin)
    (entries : List Entry) :
    Stage.ofToken? refs c (.mapping o entries) true = entries.foldlM (Stage.read refs c) {} := by
  unfold Stage.ofToken?
  simp only [Token.expectMapping, Token.entries?, ofExcept_ok_bind, Bool.not_true, Bool.false_and,
    Bool.false_eq_true, if_false]

variable {o : Template.Origin}

theorem mem_names_leftOf {name : String} (h : name ∉ ownKeys) :
    name ∈ (leftOf entries).map (·.1.name) ↔ name ∈ entries.map (·.1.name) := by
  simp only [leftOf, List.mem_map, List.mem_filter]
  constructor
  · rintro ⟨e, ⟨he, -⟩, rfl⟩
    exact ⟨e, he, rfl⟩
  · rintro ⟨e, he, rfl⟩
    exact ⟨e, ⟨he, by simpa [isOwn] using h⟩, rfl⟩

/-- The stages are those of the implicit job or stage, if what is left over makes one. -/
theorem implicitStages_leaveAll {d : Draft} (hd : d.left = [] ∧ d.implicit = .nothing)
    (entries : List Entry) (o : Template.Origin) :
    (d.leaveAll (leftOf entries)).implicitStages refs c o =
      match implicitOf (entries.map (·.1.name)) with
      | .nothing => pure d.pipeline.stages
      | .job => Job.ofToken? refs c (.mapping o (leftOf entries)) true >>= fun job =>
          pure (some [{ jobs := some [{ job with name := none }] }])
      | .stage => Stage.ofToken? refs c (.mapping o (leftOf entries)) true >>= fun stage =>
          pure (some [{ stage with name := none }]) := by
  have himplicit : implicitOf ((leftOf entries).map (·.1.name)) =
      implicitOf (entries.map (·.1.name)) := by
    have hsteps : "steps" ∉ ownKeys := by decide
    have hjobs : "jobs" ∉ ownKeys := by decide
    simp only [implicitOf, mem_names_leftOf hsteps, mem_names_leftOf hjobs]
  rw [Draft.leaveAll_eq, hd.1, hd.2, foldl_add_nothing, himplicit, List.nil_append]
  unfold Draft.implicitStages
  cases implicitOf (entries.map (·.1.name)) <;> rfl

/-- Without steps and without jobs, nobody looks at entries that the pipeline does not read. -/
theorem ofToken?_filter_isOwn (hsteps : "steps" ∉ entries.map (·.1.name))
    (hjobs : "jobs" ∉ entries.map (·.1.name)) :
    ofToken? refs c (.mapping o (entries.filter isOwn)) = ofToken? refs c (.mapping o entries) := by
  have hown : ownDraft refs c (entries.filter isOwn) = ownDraft refs c entries := by
    simp [ownDraft, List.filter_filter]
  rw [ofToken?_eq, ofToken?_eq, hown]
  have hnone (entries : List Entry) (hsteps : "steps" ∉ entries.map (·.1.name))
      (hjobs : "jobs" ∉ entries.map (·.1.name)) (d : Draft)
      (hd : d.left = [] ∧ d.implicit = .nothing) :
      (d.leaveAll (leftOf entries)).implicitStages refs c o = pure d.pipeline.stages := by
    rw [implicitStages_leaveAll hd, implicitOf, if_neg hsteps, if_neg hjobs]
  have hsub {name : String} (h : name ∉ entries.map (·.1.name)) :
      name ∉ (entries.filter isOwn).map (·.1.name) :=
    fun hname => h ((List.filter_sublist.map _).subset hname)
  refine bind_congr_of_yields (P := fun d => d.left = [] ∧ d.implicit = .nothing)
    (fun _ _ _ hrun => ownDraft_left hrun) fun d hd => ?_
  rw [hnone entries hsteps hjobs d hd, hnone _ (hsub hsteps) (hsub hjobs) d hd]

end PipelineExpansion.Pipeline
