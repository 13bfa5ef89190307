import Mathlib.Data.List.Nodup
import PipelineExpansion.Proofs.BuildProcess.Entry
import PipelineExpansion.Proofs.Task.Inputs
import PipelineExpansion.Proofs.Text.Pieces
import PipelineExpansion.Proofs.Yaml.Reading

/-!
# Tasks are read back

A task is written with its control properties as far as they say anything, and as a shorthand
where one stands for it. What is read back is the task in its normal form: without empty texts and
negative timeouts, and with the inputs of its shorthand in the spelling of the shorthand. The
normal form is written as the task is.

## Main results

* `takes_task`: what a task is written as is read as its normal form.
* `TaskStep.toTree_normal`: a task and its normal form are written alike.
-/

namespace PipelineExpansion.BuildProcess

open Yaml

/-! ### What is read -/

/-- What holds of every task that has been read: its reference is one, its timeout is a number of
32 bits, and its environment and its inputs are in order. -/
structure TaskStep.Sound (t : TaskStep) : Prop where
  reference : taskReference? t.reference = some (t.task, t.version)
  timeout : t.timeoutInMinutes ≤ 2147483647
  env : t.env.Canonical
  inputs : t.inputs.Named

theorem taskReference?_eq_some {s task version : String}
    (h : taskReference? s = some (task, version)) :
    s = task ++ "@" ++ version ∧ version ≠ "" := by
  unfold taskReference? at h
  split at h
  · next name number hsplit =>
    rw [Option.ite_none_right_eq_some] at h
    obtain ⟨hcheck, hpair⟩ := h
    cases hpair
    have hs := Text.eq_of_split_eq_pair hsplit
    refine ⟨hs, ?_⟩
    rintro rfl
    simp at hcheck
  · cases h

theorem reference_eq_of_ne {t : TaskStep} (h : t.version ≠ "") :
    t.reference = t.task ++ "@" ++ t.version := by
  rw [TaskStep.reference, if_neg (by simpa using h)]

/-- A task without anything but its reference and its inputs. -/
theorem sound_bare {task version : String}
    (h : taskReference? (task ++ "@" ++ version) = some (task, version))
    {inputs : Task.Inputs} (hinputs : inputs.Named) :
    TaskStep.Sound { task := task, version := version, inputs := inputs } := by
  refine ⟨?_, ?_, Dictionary.canonical_nil, hinputs⟩
  · rw [reference_eq_of_ne (taskReference?_eq_some h).2]
    exact h
  · show (0 : Int) ≤ 2147483647
    decide

theorem yields_control {t : TaskStep} (h : t.Sound) (key : Scalar) :
    Yields (t.control key) TaskStep.Sound := by
  unfold TaskStep.control
  split
  · exact yields_bind_of_forall fun _ => yields_pure ⟨h.reference, h.timeout, h.env, h.inputs⟩
  · exact yields_bind_of_forall fun _ => yields_pure ⟨h.reference, h.timeout, h.env, h.inputs⟩
  · exact yields_bind_of_forall fun _ => yields_pure ⟨h.reference, h.timeout, h.env, h.inputs⟩
  · exact (yields_textMap _).bind fun env henv =>
      yields_pure ⟨h.reference, h.timeout, henv.1, h.inputs⟩
  · exact yields_bind_of_forall fun _ => yields_pure ⟨h.reference, h.timeout, h.env, h.inputs⟩
  · exact yields_int32.bind fun n hn => yields_pure ⟨h.reference, hn, h.env, h.inputs⟩
  · exact yields_failAt _ _ _

theorem yields_readTask : Yields readTask TaskStep.Sound := by
  refine yields_bind_of_forall fun s => ?_
  split
  · exact yields_failAt _ _ _
  · next task version href =>
    have hs := (taskReference?_eq_some href).1
    refine yields_untilEnd (sound_bare (hs ▸ href) Task.Inputs.named_empty) fun t h => ?_
    refine yields_bind_of_forall fun key => ?_
    split
    · exact yields_bind_of_forall fun pairs =>
        yields_pure ⟨h.reference, h.timeout, h.env, Task.Inputs.named_empty.insertAll pairs⟩
    · exact yields_control h key

theorem reference_of_mem :
    ∀ s ∈ shorthands, taskReference? (s.task ++ "@" ++ s.version) = some (s.task, s.version) := by
  decide

theorem Shorthand.named_toTask (s : Shorthand) (script : String) :
    (s.toTask script).inputs.Named := by
  refine Task.Inputs.Named.insert ?_
  split
  · exact Task.Inputs.named_empty.insert
  · exact Task.Inputs.named_empty

theorem Shorthand.yields_read {s : Shorthand} (hs : s ∈ shorthands) :
    Yields s.read TaskStep.Sound := by
  refine yields_bind_of_forall fun script => ?_
  have hstart : (s.toTask script.text).Sound :=
    sound_bare (reference_of_mem s hs) (s.named_toTask _)
  refine yields_untilEnd hstart fun t h => yields_bind_of_forall fun key => ?_
  split
  · exact yields_bind_of_forall fun _ =>
      yields_pure ⟨h.reference, h.timeout, h.env, h.inputs.insert⟩
  · exact yields_control h key

/-! ### Normal forms -/

/-- A task as far as it is written apart from its inputs. -/
def TaskStep.plain (t : TaskStep) : TaskStep :=
  { t with
    name := filled t.name
    condition := filled t.condition
    timeoutInMinutes := max 0 t.timeoutInMinutes }

/-- Some inputs of a task with their values, but for those that are empty. -/
def TaskStep.pairs (t : TaskStep) (names : List String) : List (String × String) :=
  names.filterMap fun name => (filled (t.inputs.get? name)).map fun value => (name, value)

/-- The script that a shorthand for a task is written with. -/
def TaskStep.script (t : TaskStep) : String := (t.inputs.get? "script").getD ""

/-- The inputs that are read back of a shorthand. -/
def Shorthand.inputs (s : Shorthand) (t : TaskStep) : Task.Inputs :=
  (s.toTask t.script).inputs.insertAll (t.pairs s.extras)

/-- What is read back of a task. -/
def TaskStep.normal (t : TaskStep) : TaskStep :=
  match shorthands.find? (·.standsFor t) with
  | some s => { t.plain with inputs := s.inputs t }
  | none => t.plain

/-! ### Reading control properties -/

/-- The names of the properties that all tasks have. -/
def controlNames : List String :=
  ["name", "enabled", "condition", "continueOnError", "timeoutInMinutes", "env"]

section Control

variable {body : TaskStep → Scalar → Reader TaskStep}

/-- The control properties are read alike in all forms of a task. -/
theorem entries_controlEntries
    (hbody : ∀ t key, key.text ∈ controlNames → body t key = t.control key)
    {t : TaskStep} (ht : t.timeoutInMinutes ≤ 2147483647) (i : Task.Inputs) :
    Entries (fun t => Reader.scalar >>= body t)
      { task := t.task, version := t.version, inputs := i }
      t.controlEntries { t.plain with env := [], inputs := i } := by
  have hkey : ∀ {t₀ t₁ : TaskStep} (name : String) {w : List Event}, name ∈ controlNames →
      (∀ key : Scalar, key.text = name → Takes (t₀.control key) w t₁) →
      Takes (Reader.scalar >>= body t₀) (.scalar name false :: w) t₁ := by
    intro t₀ t₁ name w hname h
    refine takes_scalar_bind fun key hkey _ => ?_
    rw [hbody t₀ key (hkey ▸ hname)]
    exact h key hkey
  let t₀ : TaskStep := { task := t.task, version := t.version, inputs := i }
  let t₁ : TaskStep := { t₀ with name := filled t.name }
  let t₂ : TaskStep := { t₁ with enabled := t.enabled }
  let t₃ : TaskStep := { t₂ with condition := filled t.condition }
  let t₄ : TaskStep := { t₃ with continueOnError := t.continueOnError }
  have hname : Entries (fun t => Reader.scalar >>= body t) t₀ (filledEntry "name" t.name) t₁ := by
    refine entries_filledEntry (fun v => { t₀ with name := v }) _ ?_
    refine fun s _ => hkey "name" (by decide) fun key hk => ?_
    simp only [TaskStep.control, hk]
    exact takes_scalar_map (fun s => { t₀ with name := some s }) s
  have henabled : Entries (fun t => Reader.scalar >>= body t) t₁
      (if t.enabled then [] else [("enabled", .text "false")]) t₂ := by
    refine .unless (fun h => ?_) fun h => hkey "enabled" (by decide) fun key hk => ?_
    · simp only [t₂, h]
      rfl
    · simp only [TaskStep.control, hk, t₂, h]
      exact (takes_boolean false).map fun b => { t₁ with enabled := b }
  have hcondition : Entries (fun t => Reader.scalar >>= body t) t₂
      (filledEntry "condition" t.condition) t₃ := by
    refine entries_filledEntry (fun v => { t₂ with condition := v }) _ ?_
    refine fun s _ => hkey "condition" (by decide) fun key hk => ?_
    simp only [TaskStep.control, hk]
    exact takes_scalar_map (fun s => { t₂ with condition := some s }) s
  have hcontinue : Entries (fun t => Reader.scalar >>= body t) t₃
      (if t.continueOnError then [("continueOnError", .text "true")] else []) t₄ := by
    refine .when (fun h => hkey "continueOnError" (by decide) fun key hk => ?_) fun h => ?_
    · simp only [TaskStep.control, hk, t₄, h]
      exact (takes_boolean true).map fun b => { t₃ with continueOnError := b }
    · simp only [t₄, h]
      rfl
  have htimeout : Entries (fun t => Reader.scalar >>= body t) t₄
      (if 0 < t.timeoutInMinutes then [("timeoutInMinutes", .text (toString t.timeoutInMinutes))]
        else [])
      { t.plain with env := [], inputs := i } := by
    refine .when (fun h => hkey "timeoutInMinutes" (by decide) fun key hk => ?_) fun h => ?_
    · simp only [TaskStep.control, hk, TaskStep.plain, max_eq_right (le_of_lt h)]
      exact (takes_int32 (le_of_lt h) ht).map fun n => { t₄ with timeoutInMinutes := n }
    · simp only [TaskStep.plain, max_eq_left (not_lt.mp h)]
      rfl
  exact (((hname.append henabled).append hcondition).append hcontinue).append htimeout

theorem entries_envEntry (hbody : ∀ t key, key.text ∈ controlNames → body t key = t.control key)
    {t : TaskStep} (ht : t.env.Canonical) (t₀ : TaskStep) (hempty : t₀.env = []) :
    Entries (fun t => Reader.scalar >>= body t) t₀ t.envEntry { t₀ with env := t.env } := by
  refine .unless (fun h => ?_) fun h => takes_scalar_bind fun key hk _ => ?_
  · rw [List.isEmpty_iff.mp h, ← hempty]
  · rw [hbody t₀ key (hk ▸ by decide)]
    simp only [TaskStep.control, hk]
    have hnames : t.env.Pairwise fun a b => NameOrder.exact.same a.1 b.1 = false :=
      ht.imp fun h => by simpa [NameOrder.same] using ne_of_lt h
    have htake := (takes_textMap _ hnames).map fun env => { t₀ with env := env }
    rwa [Dictionary.ofEntries_eq_of_perm ht (.refl _)] at htake

end Control

/-! ### Tasks in full -/

/-- Reads a property of a task behind its name. -/
def TaskStep.property (t : TaskStep) (key : Scalar) : Reader TaskStep := do
  if key.text = "inputs" then return { t with inputs := .ofList (← Reader.textMap .ignoreCase) }
  else t.control key

/-- The entry for the inputs of a task. -/
def TaskStep.inputsEntry (t : TaskStep) : List (String × Tree) :=
  if t.inputs.size = 0 then [] else [("inputs", .ofTexts t.inputs.toList)]

theorem TaskStep.property_eq_control (t : TaskStep) (key : Scalar) (h : key.text ∈ controlNames) :
    t.property key = t.control key := by
  refine if_neg fun hinputs => ?_
  rw [hinputs] at h
  exact absurd h (by decide)

theorem entries_inputsEntry {t : TaskStep} (h : t.inputs.Named) (t₀ : TaskStep)
    (hempty : t₀.inputs = ∅) :
    Entries (fun t => Reader.scalar >>= t.property) t₀ t.inputsEntry
      { t₀ with inputs := t.inputs } := by
  refine .unless (fun hsize => ?_) fun _ => takes_scalar_bind fun key hk _ => ?_
  · have hnone : t.inputs = ∅ := congrArg Task.Inputs.mk (List.length_eq_zero_iff.mp hsize)
    rw [hnone, ← hempty]
  · have hnames : t.inputs.toList.Pairwise fun a b => NameOrder.ignoreCase.same a.1 b.1 = false :=
      h.pairwise_toList.imp fun hne => by simpa [NameOrder.same, Text.sameName] using hne
    have hdistinct : t.inputs.toList.Pairwise fun a b => a.1 ≠ b.1 :=
      h.pairwise_toList.imp fun hne heq => hne (congrArg Text.fold heq)
    have htake := (takes_textMap _ hnames).map fun pairs =>
      ({ t₀ with inputs := .ofList pairs } : TaskStep)
    rw [Task.Inputs.ofList_eq_of_perm h (Dictionary.ofEntries_perm hdistinct)] at htake
    rw [TaskStep.property, if_pos hk]
    exact htake

theorem takes_readTask {t : TaskStep} (h : t.Sound) :
    Takes readTask (.scalar t.reference false ::
      (Tree.entryEvents (t.controlEntries ++ t.inputsEntry ++ t.envEntry) ++ [.mappingEnd]))
        t.plain := by
  refine takes_scalar_bind fun s hs _ => ?_
  simp only [hs, h.reference]
  have hcontrol := entries_controlEntries TaskStep.property_eq_control h.timeout ∅
  have hinputs := entries_inputsEntry h.inputs { t.plain with env := [], inputs := ∅ } rfl
  have henv := entries_envEntry TaskStep.property_eq_control h.env { t.plain with env := [] } rfl
  exact takes_entries ((hcontrol.append hinputs).append henv)

/-! ### Shorthands in full -/

/-- Reads a property of a shorthand behind its name. -/
def Shorthand.property (s : Shorthand) (t : TaskStep) (key : Scalar) : Reader TaskStep := do
  match s.extras.find? (Text.sameName · key.text) with
  | some extra => return { t with inputs := t.inputs.insert extra (← Reader.scalar).text }
  | none => t.control key

/-- The entries for the extra inputs of a shorthand. -/
def Shorthand.extraEntries (s : Shorthand) (t : TaskStep) : List (String × Tree) :=
  s.extras.flatMap fun extra => filledEntry extra (t.inputs.get? extra)

theorem find?_extra : ∀ s ∈ shorthands, ∀ extra ∈ s.extras,
    s.extras.find? (Text.sameName · extra) = some extra := by
  decide

theorem find?_controlName : ∀ s ∈ shorthands, ∀ name ∈ controlNames,
    s.extras.find? (Text.sameName · name) = none := by
  decide

theorem Shorthand.property_eq_control {s : Shorthand} (hs : s ∈ shorthands) (t : TaskStep)
    (key : Scalar) (h : key.text ∈ controlNames) : s.property t key = t.control key := by
  rw [Shorthand.property, find?_controlName s hs key.text h]

theorem entries_extraEntries {s : Shorthand} (hs : s ∈ shorthands) (t t₀ : TaskStep) :
    Entries (fun t => Reader.scalar >>= s.property t) t₀ (s.extraEntries t)
      { t₀ with inputs := t₀.inputs.insertAll (t.pairs s.extras) } := by
  suffices hextras : ∀ extras ⊆ s.extras, ∀ t₀ : TaskStep,
      Entries (fun t => Reader.scalar >>= s.property t) t₀
        (extras.flatMap fun extra => filledEntry extra (t.inputs.get? extra))
        { t₀ with inputs := t₀.inputs.insertAll (t.pairs extras) } from
    hextras s.extras (List.Subset.refl _) t₀
  intro extras
  induction extras with
  | nil => exact fun _ t₀ => .nil t₀
  | cons extra rest ih =>
      intro hsubset t₀
      obtain ⟨hextra, hrest⟩ := List.cons_subset.mp hsubset
      rw [List.flatMap_cons, TaskStep.pairs, List.filterMap_cons, filledEntry, ← filled]
      cases hvalue : filled (t.inputs.get? extra) with
      | none => exact ih hrest t₀
      | some value =>
          refine (Entries.single ?_).append
            (ih hrest { t₀ with inputs := t₀.inputs.insert extra value })
          refine takes_scalar_bind fun key hk _ => ?_
          rw [Shorthand.property, hk, find?_extra s hs extra hextra]
          exact takes_scalar_map
            (fun value => { t₀ with inputs := t₀.inputs.insert extra value }) value

/-- An input that a shorthand has a place for: its script, that the script stands there itself, or
an extra one. -/
def Shorthand.HasPlace (s : Shorthand) (name : String) : Prop :=
  Text.fold name = Text.fold "script" ∨
    (s.inline = true ∧ Text.fold name = Text.fold "targetType") ∨
    ∃ extra ∈ s.extras, Text.fold extra = Text.fold name

theorem Shorthand.standsFor_iff {s : Shorthand} {t : TaskStep} :
    s.standsFor t = true ↔
      t.task = s.task ∧ t.version = s.version ∧ (t.inputs.get? "script").isSome ∧
        (s.inline = true → (t.inputs.get? "targetType").any (Text.sameName · "inline") = true) ∧
        ∀ p ∈ t.inputs.toList, s.HasPlace p.1 := by
  simp only [Shorthand.standsFor, Bool.and_eq_true, Bool.or_eq_true, decide_eq_true_eq,
    List.all_eq_true, List.any_eq_true, Task.Inputs.contains_eq, Bool.not_eq_true',
    Text.sameName_iff, Shorthand.HasPlace, or_assoc, and_assoc, ← Bool.not_eq_true,
    ← imp_iff_not_or]

theorem Shorthand.takes_read {s : Shorthand} (hs : s ∈ shorthands) {t : TaskStep} (h : t.Sound)
    (hstands : s.standsFor t = true) :
    Takes s.read (.scalar t.script false ::
      (Tree.entryEvents (s.extraEntries t ++ t.controlEntries ++ t.envEntry) ++ [.mappingEnd]))
      { t.plain with inputs := s.inputs t } := by
  refine takes_scalar_bind fun script hscript _ => ?_
  obtain ⟨htask, hversion, -⟩ := Shorthand.standsFor_iff.mp hstands
  have hstart : s.toTask script.text =
      { task := t.task, version := t.version, inputs := (s.toTask t.script).inputs } := by
    rw [hscript, htask, hversion]
    rfl
  rw [hstart]
  have hextras := entries_extraEntries hs t
    { task := t.task, version := t.version, inputs := (s.toTask t.script).inputs }
  have hcontrol := entries_controlEntries (s.property_eq_control hs) h.timeout (s.inputs t)
  have henv := entries_envEntry (s.property_eq_control hs) h.env
    { t.plain with env := [], inputs := s.inputs t } rfl
  exact takes_entries ((hextras.append hcontrol).append henv)

/-! ### Trees of tasks -/

/-- A tree off which a simple step is read: its first key says which reader that is, and the
reader takes the rest. -/
def TakesSimple (t : Tree) (s : SimpleStep) : Prop :=
  ∃ name w r, t.events = .mappingStart :: .scalar name false :: w ∧
    (∀ key : Scalar, key.text = name → simpleStep? key = some r) ∧ Takes r w s

theorem keys_controlEntries (t : TaskStep) :
    (Tree.keys t.controlEntries).Sublist ["name", "enabled", "condition", "continueOnError",
      "timeoutInMinutes"] := by
  simp only [TaskStep.controlEntries, Tree.keys_append]
  have hname := keys_filledEntry "name" t.name
  have hcondition := keys_filledEntry "condition" t.condition
  exact (((hname.append (keys_unless _ _ _)).append hcondition).append (keys_when _ _ _)).append
    (keys_when _ _ _)

theorem keys_extraEntries (s : Shorthand) (t : TaskStep) :
    (Tree.keys (s.extraEntries t)).Sublist s.extras := by
  rw [Shorthand.extraEntries]
  generalize s.extras = extras
  induction extras with
  | nil => exact .refl _
  | cons extra rest ih =>
      rw [List.flatMap_cons, Tree.keys_append]
      exact (keys_filledEntry _ _).append ih

theorem nodup_shorthandKeys : ∀ s ∈ shorthands,
    ([s.keyword] ++ s.extras
      ++ ["name", "enabled", "condition", "continueOnError", "timeoutInMinutes"]
      ++ ["env"]).Nodup := by
  decide

theorem simpleStep?_shorthand {s : Shorthand} (hs : s ∈ shorthands) (key : Scalar)
    (h : key.text = s.keyword) :
    simpleStep? key = some (s.read >>= fun t => pure (.task t)) := by
  have hfind : ∀ s ∈ shorthands, shorthands.find? (·.keyword = s.keyword) = some s := by
    simp [shorthands]
  simp only [simpleStep?, h, hfind s hs]

theorem takes_shorthand {s : Shorthand} (hs : s ∈ shorthands) {t : TaskStep} (h : t.Sound)
    (hstands : s.standsFor t = true) :
    TakesSimple (s.toTree t) (.task { t.plain with inputs := s.inputs t }) := by
  have hkeys : (Tree.keys ([(s.keyword, .text t.script)] ++ s.extraEntries t ++ t.controlEntries
      ++ t.envEntry)).Nodup := by
    refine List.Nodup.sublist ?_ (nodup_shorthandKeys s hs)
    simp only [Tree.keys_append]
    have hinputs := (List.Sublist.refl [s.keyword]).append (keys_extraEntries s t)
    exact (hinputs.append (keys_controlEntries t)).append (keys_unless _ _ _)
  refine ⟨s.keyword, _, _, ?_, fun key hkey => simpleStep?_shorthand hs key hkey,
    (s.takes_read hs h hstands).map SimpleStep.task⟩
  exact congrArg Tree.events (Tree.ofEntries_of_nodup hkeys)

theorem takes_plainTask {t : TaskStep} (h : t.Sound) :
    TakesSimple
      (.ofEntries
        ([("task", .text t.reference)] ++ t.controlEntries ++ t.inputsEntry ++ t.envEntry))
      (.task t.plain) := by
  have hkeys : (Tree.keys ([("task", .text t.reference)] ++ t.controlEntries ++ t.inputsEntry
      ++ t.envEntry)).Nodup := by
    have hnames : (["task"] ++ ["name", "enabled", "condition", "continueOnError",
        "timeoutInMinutes"] ++ ["inputs"] ++ ["env"]).Nodup := by
      decide
    refine List.Nodup.sublist ?_ hnames
    simp only [Tree.keys_append]
    have hcontrol := (List.Sublist.refl ["task"]).append (keys_controlEntries t)
    exact (hcontrol.append (keys_unless _ _ _)).append (keys_unless _ _ _)
  refine ⟨"task", _, _, congrArg Tree.events (Tree.ofEntries_of_nodup hkeys), fun key hkey => ?_,
    (takes_readTask h).map SimpleStep.task⟩
  simp only [simpleStep?, hkey]
  rfl

/-- **What a task is written as is read as its normal form.** -/
theorem takes_task {t : TaskStep} (h : t.Sound) : TakesSimple t.toTree (.task t.normal) := by
  rw [TaskStep.toTree, TaskStep.normal]
  cases hfind : shorthands.find? (·.standsFor t) with
  | none => exact takes_plainTask h
  | some s =>
      have hstands := List.find?_some (p := fun s : Shorthand => s.standsFor t) hfind
      exact takes_shorthand (List.mem_of_find?_eq_some hfind) h hstands

/-! ### Normal forms are written as what they come from -/

theorem filledEntry_filled (name : String) (value : Option String) :
    filledEntry name (filled value) = filledEntry name value := by
  rw [filledEntry, ← filled, filled_filled]
  rfl

theorem controlEntries_plain (t : TaskStep) : t.plain.controlEntries = t.controlEntries := by
  have hname : filledEntry "name" t.plain.name = filledEntry "name" t.name :=
    filledEntry_filled _ _
  have hcondition :
      filledEntry "condition" t.plain.condition = filledEntry "condition" t.condition :=
    filledEntry_filled _ _
  have htimeout : (if 0 < t.plain.timeoutInMinutes then
        [("timeoutInMinutes", Tree.text (toString t.plain.timeoutInMinutes))] else [])
      = if 0 < t.timeoutInMinutes
        then [("timeoutInMinutes", Tree.text (toString t.timeoutInMinutes))] else [] := by
    rcases lt_or_ge 0 t.timeoutInMinutes with h | h
    · simp only [TaskStep.plain, max_eq_right h.le]
    · have hplain : ¬ 0 < t.plain.timeoutInMinutes := not_lt.mpr (max_eq_left h).le
      rw [if_neg (not_lt.mpr h), if_neg hplain]
  rw [TaskStep.controlEntries, hname, hcondition, htimeout]
  rfl

/-- Shorthands stand for different tasks. -/
theorem shorthand_eq_of_task_eq :
    ∀ s ∈ shorthands, ∀ s' ∈ shorthands, s.task = s'.task → s = s' := by
  simp [shorthands]

/-- The inputs of a shorthand are its script, its extra inputs, and that the script stands there
itself. -/
theorem get?_toTask {s : Shorthand} (script name : String) :
    (s.toTask script).inputs.get? name =
      if Text.fold name = Text.fold "script" then some script
      else if s.inline = true ∧ Text.fold name = Text.fold "targetType" then some "inline"
      else none := by
  simp only [Shorthand.toTask, Task.Inputs.get?_insert]
  split
  · rfl
  · cases s.inline with
    | true => simp only [if_true, Task.Inputs.get?_insert, true_and]; rfl
    | false => rfl

theorem pairwise_fold_extras : ∀ s ∈ shorthands,
    ("script" :: "targetType" :: s.extras).Pairwise fun a b => Text.fold a ≠ Text.fold b := by
  decide

section Shorthand

variable {s : Shorthand} {t : TaskStep}

theorem mem_pairs {names : List String} {p : String × String} :
    p ∈ t.pairs names ↔ p.1 ∈ names ∧ filled (t.inputs.get? p.1) = some p.2 := by
  rw [TaskStep.pairs, List.mem_filterMap]
  constructor
  · rintro ⟨name, hname, hp⟩
    obtain ⟨value, hvalue, rfl⟩ := Option.map_eq_some_iff.mp hp
    exact ⟨hname, hvalue⟩
  · rintro ⟨hname, hvalue⟩
    exact ⟨p.1, hname, by rw [hvalue, Option.map_some]⟩

theorem pairwise_pairs (hs : s ∈ shorthands) :
    (t.pairs s.extras).Pairwise fun a b => Text.fold a.1 ≠ Text.fold b.1 := by
  have hextras : s.extras.Pairwise fun a b => Text.fold a ≠ Text.fold b :=
    (List.pairwise_cons.mp (List.pairwise_cons.mp (pairwise_fold_extras s hs)).2).2
  rw [TaskStep.pairs, List.pairwise_filterMap]
  refine hextras.imp fun hne p hp q hq => ?_
  obtain ⟨_, -, rfl⟩ := Option.map_eq_some_iff.mp hp
  obtain ⟨_, -, rfl⟩ := Option.map_eq_some_iff.mp hq
  exact hne

/-- An input that is not written as an extra one is what the shorthand itself says. -/
theorem get?_inputs_of_forall_ne {name : String}
    (h : ∀ extra ∈ s.extras, filled (t.inputs.get? extra) ≠ none →
      Text.fold name ≠ Text.fold extra) :
    (s.inputs t).get? name = (s.toTask t.script).inputs.get? name := by
  rw [Shorthand.inputs]
  refine Task.Inputs.get?_insertAll_of_forall_ne fun p hp => ?_
  obtain ⟨hextra, hvalue⟩ := mem_pairs.mp hp
  exact h p.1 hextra (hvalue ▸ nofun)

theorem get?_inputs_script (hs : s ∈ shorthands) :
    (s.inputs t).get? "script" = some t.script := by
  rw [get?_inputs_of_forall_ne, get?_toTask, if_pos rfl]
  exact fun extra hextra _ =>
    (List.pairwise_cons.mp (pairwise_fold_extras s hs)).1 extra (List.mem_cons_of_mem _ hextra)

theorem get?_inputs_targetType (hs : s ∈ shorthands) (hinline : s.inline = true) :
    (s.inputs t).get? "targetType" = some "inline" := by
  rw [get?_inputs_of_forall_ne, get?_toTask, if_neg (by decide), if_pos ⟨hinline, rfl⟩]
  exact fun extra hextra _ =>
    (List.pairwise_cons.mp (List.pairwise_cons.mp (pairwise_fold_extras s hs)).2).1 extra hextra

theorem get?_inputs_extra (hs : s ∈ shorthands) {extra : String} (h : extra ∈ s.extras) :
    (s.inputs t).get? extra = filled (t.inputs.get? extra) := by
  obtain ⟨hscript, hrest⟩ := List.pairwise_cons.mp (pairwise_fold_extras s hs)
  obtain ⟨htarget, hextras⟩ := List.pairwise_cons.mp hrest
  cases hvalue : filled (t.inputs.get? extra) with
  | some value =>
      have hmem : (extra, value) ∈ t.pairs s.extras := mem_pairs.mpr ⟨h, hvalue⟩
      have hget := Task.Inputs.get?_insertAll_of_mem (i := (s.toTask t.script).inputs) hmem
        (pairwise_pairs hs)
      rw [Shorthand.inputs]
      exact hget
  | none =>
      have hne : ∀ other ∈ s.extras, filled (t.inputs.get? other) ≠ none →
          Text.fold extra ≠ Text.fold other := by
        intro other hother hfilled heq
        have hsame : extra = other :=
          List.inj_on_of_nodup_map (List.pairwise_map.mpr hextras) h hother heq
        exact hfilled (hsame ▸ hvalue)
      rw [get?_inputs_of_forall_ne hne, get?_toTask,
        if_neg fun heq => hscript extra (List.mem_cons_of_mem _ h) heq.symm,
        if_neg fun heq => htarget extra h heq.2.symm]

/-- The inputs of a shorthand have the names that the shorthand has for them. -/
theorem hasPlace_of_mem_inputs {p : String × String} (hp : p ∈ (s.inputs t).toList) :
    s.HasPlace p.1 := by
  obtain ⟨e, he, rfl⟩ := List.mem_map.mp hp
  have hnamed : (s.inputs t).Named := (s.named_toTask _).insertAll _
  have hfold := hnamed.folded e he
  have hmem : e.1 ∈ (s.inputs t).entries.names := List.mem_map_of_mem he
  rw [Shorthand.inputs] at hmem
  rcases Task.Inputs.mem_names_insertAll hmem with hown | ⟨q, hq, hq'⟩
  · rcases Dictionary.mem_names_put hown with hscript | hgiven
    · exact .inl (hfold.symm.trans hscript)
    · cases hinline : s.inline with
      | true =>
          rw [hinline, if_pos rfl] at hgiven
          rcases Dictionary.mem_names_put hgiven with htarget | hnone
          · exact .inr (.inl ⟨hinline, hfold.symm.trans htarget⟩)
          · cases hnone
      | false =>
          rw [hinline, if_neg Bool.false_ne_true] at hgiven
          cases hgiven
  · exact .inr (.inr ⟨q.1, (mem_pairs.mp hq).1, (hfold.symm.trans hq').symm⟩)

/-- What is read back of a shorthand is written as that shorthand again. -/
theorem standsFor_inputs (hs : s ∈ shorthands) (h : s.standsFor t = true) :
    s.standsFor { t.plain with inputs := s.inputs t } = true := by
  obtain ⟨htask, hversion, -⟩ := Shorthand.standsFor_iff.mp h
  refine Shorthand.standsFor_iff.mpr
    ⟨htask, hversion, ?_, fun hinline => ?_, fun p hp => hasPlace_of_mem_inputs hp⟩
  · rw [get?_inputs_script hs, Option.isSome_some]
  · rw [get?_inputs_targetType hs hinline]
    rfl

/-- Shorthands stand for different tasks, so that the one that is found is the one that stands for
the task. -/
theorem find?_standsFor (hs : s ∈ shorthands) (h : s.standsFor t = true) :
    shorthands.find? (·.standsFor t) = some s := by
  cases hfind : shorthands.find? (·.standsFor t) with
  | none => exact absurd h (List.find?_eq_none.mp hfind s hs)
  | some s' =>
      have hstands := List.find?_some (p := fun s : Shorthand => s.standsFor t) hfind
      have htask :=
        (Shorthand.standsFor_iff.mp hstands).1.symm.trans (Shorthand.standsFor_iff.mp h).1
      rw [shorthand_eq_of_task_eq s' (List.mem_of_find?_eq_some hfind) s hs htask]

end Shorthand

theorem extraEntries_inputs {s : Shorthand} (hs : s ∈ shorthands) (t : TaskStep) :
    s.extraEntries { t.plain with inputs := s.inputs t } = s.extraEntries t := by
  rw [Shorthand.extraEntries, Shorthand.extraEntries]
  refine List.flatMap_congr fun extra hextra => ?_
  rw [get?_inputs_extra hs hextra, filledEntry_filled]

/-- **A task and its normal form are written alike.** -/
theorem TaskStep.toTree_normal (t : TaskStep) : t.normal.toTree = t.toTree := by
  rw [TaskStep.normal, TaskStep.toTree, TaskStep.toTree]
  cases hfind : shorthands.find? (·.standsFor t) with
  | none =>
      have hplain : shorthands.find? (·.standsFor t.plain) = none := hfind
      simp only [hplain, controlEntries_plain]
      rfl
  | some s =>
      have hs := List.mem_of_find?_eq_some hfind
      have hstands := List.find?_some (p := fun s : Shorthand => s.standsFor t) hfind
      have hcontrol :
          ({ t.plain with inputs := s.inputs t } : TaskStep).controlEntries = t.controlEntries :=
        controlEntries_plain t
      have hextra := extraEntries_inputs hs t
      rw [Shorthand.extraEntries, Shorthand.extraEntries] at hextra
      simp only [find?_standsFor hs (standsFor_inputs hs hstands)]
      rw [Shorthand.toTree, Shorthand.toTree, get?_inputs_script hs, hcontrol, hextra]
      rfl

end PipelineExpansion.BuildProcess
