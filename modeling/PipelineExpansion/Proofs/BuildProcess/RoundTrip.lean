import PipelineExpansion.Proofs.BuildProcess.Document

/-!
# Which steps come back as they are

The writer leaves out what a step says to no effect: an empty name or condition of a task, a timeout
that is none, and, where a shorthand stands for a task, extra inputs that are empty and in which
case of letters the target type is given. What is read back is the step but for that
(`Step.mapTasks TaskStep.settled`), so a step comes back as it is when no task in it says any of
this (`TaskStep.Plain`).

Steps are compared as the inputs of tasks are: however these are spelled.

## Main results

* `TaskStep.same_normal_settled`: what is read back of a task.
* `TaskStep.same_settled_iff`: which tasks come back as they are.
* `readStep_written`: what is read back of a step, and which steps come back as they are.
-/

namespace PipelineExpansion.BuildProcess

open Yaml

/-! ### Inputs of shorthands -/

theorem filled_eq_self_iff {value : Option String} : filled value = value ↔ value ≠ some "" :=
  ⟨fun h => h ▸ filled_ne value, filled_of_ne⟩

/-- What is left of the value of an input, by its folded name: `inline` of the target type, and
nothing of an extra input that is empty. -/
def Shorthand.settleValue (s : Shorthand) (name value : String) : Option String :=
  if s.inline = true ∧ name = Text.fold "targetType" then some "inline"
  else if ∃ extra ∈ s.extras, Text.fold extra = name then filled (some value)
  else some value

/-- What is left of the inputs of a task that a shorthand stands for. -/
def Shorthand.settle (s : Shorthand) (i : Task.Inputs) : Task.Inputs :=
  ⟨i.entries.filterValues fun name e => (s.settleValue name e.2).map fun value => (e.1, value)⟩

section Shorthand

variable {s : Shorthand} {t : TaskStep} {i : Task.Inputs}

theorem named_settle (h : i.Named) : (s.settle i).Named := by
  constructor <;> simp only [Shorthand.settle]
  · exact h.canonical.filterValues
  · intro e he
    obtain ⟨old, hmem, hsettle⟩ := Dictionary.mem_filterValues.mp he
    obtain ⟨value, -, hkept⟩ := Option.map_eq_some_iff.mp hsettle
    rw [← hkept]
    exact h.folded _ hmem

theorem get?_settle (h : i.Named) (name : String) :
    (s.settle i).get? name = (i.get? name).bind (s.settleValue (Text.fold name)) := by
  rw [Task.Inputs.get?, Task.Inputs.get?, Shorthand.settle, h.canonical.find?_filterValues]
  cases i.entries.find? (Text.fold name) with
  | none => rfl
  | some e =>
      simp only [Option.bind_some, Option.map_some, Option.map_map]
      exact Option.map_id_apply

theorem settleValue_targetType (hinline : s.inline = true) (value : String) :
    s.settleValue (Text.fold "targetType") value = some "inline" :=
  if_pos ⟨hinline, rfl⟩

theorem settleValue_extra (hs : s ∈ shorthands) {extra : String} (h : extra ∈ s.extras)
    (value : String) : s.settleValue (Text.fold extra) value = filled (some value) := by
  have htarget := (List.pairwise_cons.mp (List.pairwise_cons.mp (pairwise_fold_extras s hs)).2).1
  rw [Shorthand.settleValue, if_neg fun heq => htarget extra h heq.2.symm, if_pos ⟨extra, h, rfl⟩]

theorem settleValue_script (hs : s ∈ shorthands) (value : String) :
    s.settleValue (Text.fold "script") value = some value := by
  have hscript := (List.pairwise_cons.mp (pairwise_fold_extras s hs)).1
  have hextra : ¬ ∃ extra ∈ s.extras, Text.fold extra = Text.fold "script" :=
    fun ⟨extra, h, heq⟩ => hscript extra (List.mem_cons_of_mem _ h) heq.symm
  rw [Shorthand.settleValue, if_neg fun heq => absurd heq.2 (by decide), if_neg hextra]

theorem get?_eq_of_fold_eq {a b : String} (h : Text.fold a = Text.fold b) :
    i.get? a = i.get? b := by
  rw [Task.Inputs.get?, Task.Inputs.get?, h]

/-- Inputs that a shorthand has a place for are all there are. -/
theorem hasPlace_of_get?_eq_some (hnamed : i.Named) (h : ∀ p ∈ i.toList, s.HasPlace p.1)
    {name value : String} (hget : i.get? name = some value) : s.HasPlace name := by
  obtain ⟨e, hfind, -⟩ := Option.map_eq_some_iff.mp hget
  have hmem := Dictionary.mem_of_find?_eq_some hfind
  have hfold : Text.fold name = Text.fold e.1 := hnamed.folded _ hmem
  rw [Shorthand.HasPlace, hfold]
  exact h e (List.mem_map_of_mem hmem)

/-- **What is read back of the inputs of a shorthand.** -/
theorem beq_inputs_settle (hs : s ∈ shorthands) (h : t.inputs.Named)
    (hstands : s.standsFor t = true) : (s.inputs t == s.settle t.inputs) = true := by
  obtain ⟨-, -, hscript, htarget, hplaces⟩ := Shorthand.standsFor_iff.mp hstands
  have hnamed : (s.inputs t).Named := (s.named_toTask _).insertAll _
  refine (hnamed.beq_iff (named_settle h)).mpr fun name => ?_
  rw [get?_settle h]
  by_cases hplace : s.HasPlace name
  · rcases hplace with hname | ⟨hinline, hname⟩ | ⟨extra, hextra, hname⟩
    · obtain ⟨script, hscript⟩ := Option.isSome_iff_exists.mp hscript
      rw [get?_eq_of_fold_eq hname, get?_eq_of_fold_eq hname, hname, get?_inputs_script hs,
        TaskStep.script, hscript, Option.bind_some, settleValue_script hs, Option.getD_some]
    · obtain ⟨target, htarget, -⟩ := (Option.any_eq_true _ _).mp (htarget hinline)
      rw [get?_eq_of_fold_eq hname, get?_eq_of_fold_eq hname, hname,
        get?_inputs_targetType hs hinline, htarget, Option.bind_some,
        settleValue_targetType hinline]
    · rw [← get?_eq_of_fold_eq hname, ← get?_eq_of_fold_eq hname, ← hname,
        get?_inputs_extra hs hextra]
      cases t.inputs.get? extra with
      | none => rfl
      | some value => rw [Option.bind_some, settleValue_extra hs hextra]
  · have hnone : ∀ {i : Task.Inputs}, i.Named → (∀ p ∈ i.toList, s.HasPlace p.1) →
        i.get? name = none := fun hi hall =>
      Option.eq_none_iff_forall_ne_some.mpr fun _ hget =>
        hplace (hasPlace_of_get?_eq_some hi hall hget)
    rw [hnone hnamed fun p hp => hasPlace_of_mem_inputs hp, hnone h hplaces, Option.bind_none]

/-- Which inputs of a shorthand come back as they are. -/
theorem beq_settle_iff (hs : s ∈ shorthands) (h : t.inputs.Named)
    (hstands : s.standsFor t = true) :
    (s.settle t.inputs == t.inputs) = true ↔
      (s.inline = true → t.inputs.get? "targetType" = some "inline") ∧
        ∀ extra ∈ s.extras, t.inputs.get? extra ≠ some "" := by
  obtain ⟨-, -, -, htarget, -⟩ := Shorthand.standsFor_iff.mp hstands
  simp only [(named_settle h).beq_iff h, get?_settle h]
  constructor
  · refine fun hsame => ⟨fun hinline => ?_, fun extra hextra hempty => ?_⟩
    · obtain ⟨target, hget, -⟩ := (Option.any_eq_true _ _).mp (htarget hinline)
      rw [← hsame, hget, Option.bind_some, settleValue_targetType hinline]
    · have hleft := hsame extra
      rw [hempty, Option.bind_some, settleValue_extra hs hextra] at hleft
      exact filled_ne _ hleft
  · rintro ⟨htarget, hextras⟩ name
    cases hget : t.inputs.get? name with
    | none => rfl
    | some value =>
        rw [Option.bind_some, Shorthand.settleValue]
        split
        · next hname =>
          rw [← htarget hname.1, ← hget, get?_eq_of_fold_eq hname.2]
        · split
          · next hname =>
            obtain ⟨extra, hextra, hfold⟩ := hname
            refine filled_of_ne ?_
            rw [← hget, ← get?_eq_of_fold_eq hfold]
            exact hextras extra hextra
          · rfl

end Shorthand

/-! ### Tasks -/

/-- Tasks are the same when all but their inputs is equal, and these are equal as inputs are. -/
def TaskStep.Same (a b : TaskStep) : Prop :=
  a = { b with inputs := a.inputs } ∧ (a.inputs == b.inputs) = true

/-- What is left of a task when it has been written and read. -/
def TaskStep.settled (t : TaskStep) : TaskStep :=
  { t.plain with
    inputs :=
      match shorthands.find? (·.standsFor t) with
      | some s => s.settle t.inputs
      | none => t.inputs }

/-- A task that says nothing to no effect. -/
structure TaskStep.Plain (t : TaskStep) : Prop where
  name : t.name ≠ some ""
  condition : t.condition ≠ some ""
  timeout : 0 ≤ t.timeoutInMinutes
  targetType : ∀ s ∈ shorthands, s.standsFor t = true → s.inline = true →
    t.inputs.get? "targetType" = some "inline"
  extras : ∀ s ∈ shorthands, s.standsFor t = true → ∀ extra ∈ s.extras,
    t.inputs.get? extra ≠ some ""

namespace TaskStep

theorem Same.refl (t : TaskStep) : t.Same t := ⟨rfl, Task.Inputs.beq_iff_values.mpr rfl⟩

theorem Same.symm {a b : TaskStep} (h : a.Same b) : b.Same a := by
  refine ⟨?_, Task.Inputs.beq_iff_values.mpr (Task.Inputs.beq_iff_values.mp h.2).symm⟩
  rw [h.1]

theorem Same.trans {a b c : TaskStep} (h : a.Same b) (h' : b.Same c) : a.Same c := by
  refine ⟨?_, Task.Inputs.beq_iff_values.mpr
    ((Task.Inputs.beq_iff_values.mp h.2).trans (Task.Inputs.beq_iff_values.mp h'.2))⟩
  rw [h.1, h'.1]

/-- Tasks are the same when they are compared as equal. -/
theorem same_iff_beq {a b : TaskStep} : a.Same b ↔ (a == b) = true := by
  obtain ⟨task, version, name, enabled, condition, coe, timeout, env, inputs⟩ := a
  obtain ⟨task', version', name', enabled', condition', coe', timeout', env', inputs'⟩ := b
  change _ ↔ instBEqTaskStep.beq _ _ = true
  simp [Same, instBEqTaskStep.beq, and_assoc]

/-- **What is read back of a task.** -/
theorem same_normal_settled {t : TaskStep} (h : t.Sound) : t.normal.Same t.settled := by
  rw [normal, settled]
  cases hfind : shorthands.find? (·.standsFor t) with
  | none => exact .refl t.plain
  | some s =>
      have hstands := List.find?_some (p := fun s : Shorthand => s.standsFor t) hfind
      exact ⟨rfl, beq_inputs_settle (List.mem_of_find?_eq_some hfind) h.inputs hstands⟩

theorem plain_eq_iff {t : TaskStep} (i : Task.Inputs) :
    { t.plain with inputs := i } = { t with inputs := i } ↔
      t.name ≠ some "" ∧ t.condition ≠ some "" ∧ 0 ≤ t.timeoutInMinutes := by
  simp [plain, filled_eq_self_iff]

/-- **Which tasks come back as they are.** -/
theorem same_settled_iff {t : TaskStep} (h : t.Sound) : t.settled.Same t ↔ t.Plain := by
  rw [Same, settled, plain_eq_iff]
  cases hfind : shorthands.find? (·.standsFor t) with
  | none =>
      have hnone : ∀ s ∈ shorthands, ¬ s.standsFor t = true := List.find?_eq_none.mp hfind
      refine ⟨fun ⟨⟨hname, hcondition, htimeout⟩, _⟩ => ?_, fun hplain => ?_⟩
      · exact ⟨hname, hcondition, htimeout, fun s hs hstands => absurd hstands (hnone s hs),
          fun s hs hstands => absurd hstands (hnone s hs)⟩
      · exact ⟨⟨hplain.name, hplain.condition, hplain.timeout⟩, (Same.refl t).2⟩
  | some s =>
      have hs := List.mem_of_find?_eq_some hfind
      have hstands := List.find?_some (p := fun s : Shorthand => s.standsFor t) hfind
      have honly : ∀ s' ∈ shorthands, s'.standsFor t = true → s' = s := fun s' hs' hstands' =>
        Option.some.inj ((find?_standsFor hs' hstands').symm.trans hfind)
      rw [beq_settle_iff hs h.inputs hstands]
      constructor
      · rintro ⟨⟨hname, hcondition, htimeout⟩, htarget, hextras⟩
        refine ⟨hname, hcondition, htimeout, fun s' hs' hstands' => ?_, fun s' hs' hstands' => ?_⟩
        · exact honly s' hs' hstands' ▸ htarget
        · exact honly s' hs' hstands' ▸ hextras
      · intro hplain
        exact ⟨⟨hplain.name, hplain.condition, hplain.timeout⟩, hplain.targetType s hs hstands,
          hplain.extras s hs hstands⟩

theorem same_normal_iff {t : TaskStep} (h : t.Sound) : t.normal.Same t ↔ t.Plain :=
  ⟨fun hsame => (same_settled_iff h).mp ((same_normal_settled h).symm.trans hsame),
    fun hplain => (same_normal_settled h).trans ((same_settled_iff h).mpr hplain)⟩

end TaskStep

/-! ### Steps -/

/-- Simple steps are the same when their tasks are. -/
def SimpleStep.Same : SimpleStep → SimpleStep → Prop
  | .task a, .task b => a.Same b
  | .checkout a, .checkout b => a = b
  | _, _ => False

/-- Steps are the same when the tasks in them are. -/
def Step.Same : Step → Step → Prop
  | .simple a, .simple b => a.Same b
  | .group name a, .group name' b => name = name' ∧ List.Forall₂ SimpleStep.Same a b
  | .template a, .template b =>
    a.path = b.path ∧ a.parameters = b.parameters ∧
      List.Forall₂ (fun e e' => e.1 = e'.1 ∧ List.Forall₂ SimpleStep.Same e.2 e'.2)
        a.overrides b.overrides
  | _, _ => False

/-- A simple step with its task changed. -/
def SimpleStep.mapTask (f : TaskStep → TaskStep) : SimpleStep → SimpleStep
  | .task t => .task (f t)
  | .checkout c => .checkout c

/-- A step with all tasks in it changed. -/
def Step.mapTasks (f : TaskStep → TaskStep) : Step → Step
  | .simple s => .simple (s.mapTask f)
  | .group name steps => .group name (steps.map (·.mapTask f))
  | .template r =>
    .template { r with overrides := r.overrides.map fun e => (e.1, e.2.map (·.mapTask f)) }

/-- The task of a simple step, if it is one. -/
def SimpleStep.tasks : SimpleStep → List TaskStep
  | .task t => [t]
  | .checkout _ => []

/-- All tasks in a step. -/
def Step.tasks : Step → List TaskStep
  | .simple s => s.tasks
  | .group _ steps => steps.flatMap SimpleStep.tasks
  | .template r => r.overrides.flatMap fun e => e.2.flatMap SimpleStep.tasks

section Map

variable {f g : TaskStep → TaskStep}

theorem SimpleStep.same_mapTask_iff {s : SimpleStep} :
    (s.mapTask f).Same (s.mapTask g) ↔ ∀ t ∈ s.tasks, (f t).Same (g t) := by
  cases s with
  | task t => simp only [mapTask, Same, tasks, List.forall_mem_singleton]
  | checkout c => exact iff_of_true rfl (List.forall_mem_nil _)

theorem forall₂_same_mapTask_iff {steps : List SimpleStep} :
    List.Forall₂ SimpleStep.Same (steps.map (·.mapTask f)) (steps.map (·.mapTask g)) ↔
      ∀ t ∈ steps.flatMap SimpleStep.tasks, (f t).Same (g t) := by
  rw [List.forall₂_map_left_iff, List.forall₂_map_right_iff, List.forall₂_same,
    List.forall_mem_flatMap]
  exact forall₂_congr fun s _ => s.same_mapTask_iff

/-- Changed steps are the same when the changed tasks are. -/
theorem Step.same_mapTasks_iff {s : Step} :
    (s.mapTasks f).Same (s.mapTasks g) ↔ ∀ t ∈ s.tasks, (f t).Same (g t) := by
  cases s with
  | simple s => exact s.same_mapTask_iff
  | group name steps => exact (and_iff_right rfl).trans forall₂_same_mapTask_iff
  | template r =>
      refine (and_iff_right rfl).trans ((and_iff_right rfl).trans ?_)
      rw [tasks, List.forall₂_map_left_iff, List.forall₂_map_right_iff, List.forall₂_same,
        List.forall_mem_flatMap]
      exact forall₂_congr fun e _ => (and_iff_right rfl).trans forall₂_same_mapTask_iff

end Map

theorem SimpleStep.mapTask_id (s : SimpleStep) : s.mapTask id = s := by
  cases s <;> rfl

theorem Step.mapTasks_id (s : Step) : s.mapTasks id = s := by
  have hid : (fun s : SimpleStep => s.mapTask id) = id := funext SimpleStep.mapTask_id
  cases s with
  | simple s => rw [mapTasks, SimpleStep.mapTask_id]
  | group name steps => rw [mapTasks, hid, List.map_id]
  | template r => simp only [mapTasks, hid, List.map_id, List.map_id']

theorem SimpleStep.normal_eq_mapTask (s : SimpleStep) : s.normal = s.mapTask TaskStep.normal := by
  cases s <;> rfl

/-- The normal form of a step is made of those of the tasks in it. -/
theorem Step.normal_eq_mapTasks (s : Step) : s.normal = s.mapTasks TaskStep.normal := by
  have hnormal : SimpleStep.normal = (·.mapTask TaskStep.normal) :=
    funext SimpleStep.normal_eq_mapTask
  cases s with
  | simple s => rw [normal, mapTasks, SimpleStep.normal_eq_mapTask]
  | group name steps => rw [normal, mapTasks, hnormal]
  | template r => rw [normal, mapTasks, normalOverrides, hnormal]

theorem SimpleStep.Sound.sound_of_mem_tasks {s : SimpleStep} (h : s.Sound) :
    ∀ t ∈ s.tasks, t.Sound := by
  cases s with
  | task t => exact List.forall_mem_singleton.mpr h
  | checkout c => exact List.forall_mem_nil _

theorem SoundSteps.sound_of_mem_tasks {steps : List SimpleStep} (h : SoundSteps steps) :
    ∀ t ∈ steps.flatMap SimpleStep.tasks, t.Sound :=
  List.forall_mem_flatMap.mpr fun s hs => (h s hs).sound_of_mem_tasks

/-- The tasks in a step that has been read have been read. -/
theorem Step.Sound.sound_of_mem_tasks {s : Step} (h : s.Sound) : ∀ t ∈ s.tasks, t.Sound := by
  cases s with
  | simple s => exact SimpleStep.Sound.sound_of_mem_tasks h
  | group name steps => exact SoundSteps.sound_of_mem_tasks h.2
  | template r =>
      exact List.forall_mem_flatMap.mpr fun e he => (h.overrides.steps e he).sound_of_mem_tasks

/-- What is read back of a step is the step with its tasks settled. -/
theorem Step.same_normal_settled {s : Step} (h : s.Sound) :
    s.normal.Same (s.mapTasks TaskStep.settled) := by
  rw [normal_eq_mapTasks, same_mapTasks_iff]
  exact fun t ht => TaskStep.same_normal_settled (h.sound_of_mem_tasks t ht)

/-- A step comes back as it is when all tasks in it do. -/
theorem Step.same_normal_iff {s : Step} (h : s.Sound) :
    s.normal.Same s ↔ ∀ t ∈ s.tasks, t.Plain := by
  calc s.normal.Same s
      ↔ (s.mapTasks TaskStep.normal).Same (s.mapTasks id) := by
        rw [mapTasks_id, normal_eq_mapTasks]
    _ ↔ ∀ t ∈ s.tasks, t.normal.Same t := same_mapTasks_iff
    _ ↔ ∀ t ∈ s.tasks, t.Plain :=
        forall₂_congr fun t ht => TaskStep.same_normal_iff (h.sound_of_mem_tasks t ht)

/-! ### Documents -/

/-- **What is read back of a step.** A step that has been read from any text is written as a tree;
a text that gives this tree back is read as the step with its tasks settled, which is the step as it
was when they say nothing to no effect. -/
theorem readStep_written {x written : String} {s : Step} (hread : readDocument readStep x = .ok s)
    (hback : GivesBack written s.toTree) :
    ∃ s', readDocument readStep written = .ok s' ∧ s'.Same (s.mapTasks TaskStep.settled) ∧
      (s'.Same s ↔ ∀ t ∈ s.tasks, t.Plain) := by
  have hsound := of_readDocument yields_readStep hread
  exact ⟨s.normal, readDocument_of_takes (takes_step hsound) hback,
    Step.same_normal_settled hsound, Step.same_normal_iff hsound⟩

/-- The step that a text is read as. -/
def stepOf (text : String) : Step := (readDocument readStep text).toOption.getD (.group "" [])

theorem readDocument_stepOf {text : String} (h : (readDocument readStep text).isOk = true) :
    readDocument readStep text = .ok (stepOf text) :=
  readDocument_getD _ h

/-- A group with a task that says what a shorthand says, and something to no effect. -/
def shorthandGroup : String :=
  "group: build\nsteps:\n- task: Bash@3\n  name: ''\n  inputs: {TARGETTYPE: Inline, script: make}\n"
    ++ "- script: make test\n"

theorem readStep_written_shorthandGroup :
    readDocument readStep shorthandGroup = .ok (stepOf shorthandGroup) ∧
      GivesBack (stepOf shorthandGroup).toTree.render (stepOf shorthandGroup).toTree ∧
      ∃ s', readDocument readStep (stepOf shorthandGroup).toTree.render = .ok s' ∧
        s'.Same ((stepOf shorthandGroup).mapTasks TaskStep.settled) ∧
        (s'.Same (stepOf shorthandGroup) ↔ ∀ t ∈ (stepOf shorthandGroup).tasks, t.Plain) := by
  have hread : readDocument readStep shorthandGroup = .ok (stepOf shorthandGroup) :=
    readDocument_stepOf (by decide +kernel)
  have hback : GivesBack (stepOf shorthandGroup).toTree.render (stepOf shorthandGroup).toTree := by
    decide +kernel
  exact ⟨hread, hback, readStep_written hread hback⟩

/-- A timeout that is none does not come back. -/
theorem not_same_of_late {x written : String} {s s' : Step}
    (hread : readDocument readStep x = .ok s) (hback : GivesBack written s.toTree)
    (hread' : readDocument readStep written = .ok s')
    (hlate : s.tasks.any (·.timeoutInMinutes < 0) = true) : ¬ s'.Same s := by
  intro hsame
  have hsound := of_readDocument yields_readStep hread
  have hnormal : s' = s.normal :=
    Except.ok.inj (hread'.symm.trans (readDocument_of_takes (takes_step hsound) hback))
  rw [hnormal, Step.same_normal_iff hsound] at hsame
  obtain ⟨t, ht, htimeout⟩ := List.any_eq_true.mp hlate
  exact absurd (hsame t ht).timeout (not_le.mpr (of_decide_eq_true htimeout))

/-- A task with a timeout that is none. -/
def lateTask : String := "task: MyTask@1\ntimeoutInMinutes: -5\n"

/-- The timeout of the task does not come back. -/
theorem lateTask_losesTimeout :
    ¬ ∀ (x written : String) (s : Step), readDocument readStep x = .ok s →
      GivesBack written s.toTree →
      ∃ s', readDocument readStep written = .ok s' ∧ s'.Same s := by
  have hread : readDocument readStep lateTask = .ok (stepOf lateTask) :=
    readDocument_stepOf (by decide +kernel)
  have hback : GivesBack (stepOf lateTask).toTree.render (stepOf lateTask).toTree := by
    decide +kernel
  have hlate : (stepOf lateTask).tasks.any (·.timeoutInMinutes < 0) = true := by decide +kernel
  -- Nothing but these facts matters from here on; the step itself is costly to evaluate.
  generalize (stepOf lateTask).toTree.render = written at hback
  generalize stepOf lateTask = s at hread hback hlate
  intro hsame
  obtain ⟨s', hread', hsame'⟩ := hsame _ _ _ hread hback
  exact not_same_of_late hread hback hread' hlate hsame'

end PipelineExpansion.BuildProcess
