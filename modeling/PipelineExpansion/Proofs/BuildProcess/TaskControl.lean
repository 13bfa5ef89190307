import PipelineExpansion.Proofs.BuildProcess.Node
import PipelineExpansion.Proofs.BuildProcess.Task
import PipelineExpansion.Proofs.Yaml.Likeness

/-!
# Control properties of tasks

The entries of a task behind its first one are control properties and inputs. What a control property
says does not depend on what there is already, and leaves the inputs alone (`TaskControl.put`). So the
entries come to what the control properties say and what the inputs are, however the two are mixed.

## Main results

* `readsAs_control_iff`: a control property is read as what it says.
* `steps_iff`: what entries come to where each is a control property or an input.
* `steps_inputs_iff`: what entries come to where one of them holds the inputs.
-/

namespace PipelineExpansion.BuildProcess

open Yaml

/-! ### Control properties -/

/-- What a control property says. -/
inductive TaskControl where
  | condition (text : String)
  | continueOnError (b : Bool)
  | enabled (b : Bool)
  | env (d : Dictionary String)
  | name (text : String)
  | timeoutInMinutes (n : Int)

/-- The key of a control property. -/
def TaskControl.key : TaskControl → String
  | condition _ => "condition"
  | continueOnError _ => "continueOnError"
  | enabled _ => "enabled"
  | env _ => "env"
  | name _ => "name"
  | timeoutInMinutes _ => "timeoutInMinutes"

/-- A task with what a control property says. -/
def TaskControl.put (t : TaskStep) : TaskControl → TaskStep
  | condition text => { t with condition := some text }
  | continueOnError b => { t with continueOnError := b }
  | enabled b => { t with enabled := b }
  | env d => { t with env := d }
  | name text => { t with name := some text }
  | timeoutInMinutes n => { t with timeoutInMinutes := n }

/-- Reads the value of a control property. -/
def readTaskControl (key : Scalar) : Reader TaskControl :=
  match key.text with
  | "condition" => do return .condition (← Reader.scalar).text
  | "continueOnError" => do return .continueOnError (← Reader.boolean)
  | "enabled" => do return .enabled (← Reader.boolean)
  | "env" => do return .env (← Reader.textMap .exact)
  | "name" => do return .name (← Reader.scalar).text
  | "timeoutInMinutes" => do return .timeoutInMinutes (← Reader.int32)
  | other => Reader.failAt (some key.span) ("Unexpected property " ++ other)

theorem control_eq (t : TaskStep) (key : Scalar) :
    t.control key = readTaskControl key >>= fun c => pure (c.put t) := by
  unfold TaskStep.control readTaskControl
  split <;> (try simp only [*, bind_assoc, pure_bind]) <;> rfl

theorem readsNode_readTaskControl (key : Scalar) : ReadsNode (readTaskControl key) := by
  unfold readTaskControl
  split
  · exact readsNode_scalar.map _
  · exact readsNode_boolean.map _
  · exact readsNode_boolean.map _
  · exact (readsNode_textMap _).map _
  · exact readsNode_scalar.map _
  · exact readsNode_int32.map _
  · exact ⟨fun _ => within_throw _ _ _, fun _ => within_throw _ _ _⟩

theorem alike_readTaskControl {key key' : Scalar} (h : key.text = key'.text) :
    Alike Eq (readTaskControl key) (readTaskControl key') := by
  unfold readTaskControl
  rw [h]
  split
  · exact alike_scalar.map fun _ _ heq => congrArg TaskControl.condition heq
  · exact alike_boolean.map fun _ _ heq => congrArg TaskControl.continueOnError heq
  · exact alike_boolean.map fun _ _ heq => congrArg TaskControl.enabled heq
  · exact (alike_textMap _).map fun _ _ heq => congrArg TaskControl.env heq
  · exact alike_scalar.map fun _ _ heq => congrArg TaskControl.name heq
  · exact alike_int32.map fun _ _ heq => congrArg TaskControl.timeoutInMinutes heq
  · exact alike_failAt _ _ _

theorem yields_readTaskControl (key : Scalar) :
    Yields (readTaskControl key) fun c => c.key = key.text := by
  unfold readTaskControl
  split
  case h_7 => exact yields_failAt _ _ _
  all_goals
    next h => exact yields_bind_of_forall fun _ => yields_pure h.symm

/-- A task with other inputs. -/
def TaskStep.withInputs (t : TaskStep) (i : Task.Inputs) : TaskStep := { t with inputs := i }

@[simp] theorem TaskStep.inputs_withInputs (t : TaskStep) (i : Task.Inputs) :
    (t.withInputs i).inputs = i := rfl

@[simp] theorem TaskStep.withInputs_withInputs (t : TaskStep) (i i' : Task.Inputs) :
    (t.withInputs i).withInputs i' = t.withInputs i' := rfl

@[simp] theorem TaskStep.withInputs_self (t : TaskStep) : t.withInputs t.inputs = t := rfl

namespace TaskControl

variable {t : TaskStep} {i : Task.Inputs}

@[simp] theorem put_inputs (c : TaskControl) : (c.put t).inputs = t.inputs := by
  cases c <;> rfl

theorem put_withInputs (c : TaskControl) : c.put (t.withInputs i) = (c.put t).withInputs i := by
  cases c <;> rfl

/-- Control properties with different keys do not get in each other's way. -/
theorem put_comm {c d : TaskControl} (h : c.key ≠ d.key) : d.put (c.put t) = c.put (d.put t) := by
  cases c <;> cases d <;> first | rfl | exact absurd rfl h

/-- Control properties leave the inputs alone, whatever these are. -/
theorem foldl_put_withInputs (cs : List TaskControl) :
    cs.foldl put (t.withInputs i) = (cs.foldl put t).withInputs i := by
  induction cs generalizing t with
  | nil => rfl
  | cons c rest ih => rw [List.foldl_cons, List.foldl_cons, put_withInputs, ih]

end TaskControl

/-- An entry is a control property, by its contents. -/
def isControl (x : Content) : Bool := (textOf x.1).any (controlNames.contains ·)

/-- The entries that are control properties, by their contents. -/
def controlsIn (pairs : List Pair) : List Content := (pairs.map Pair.content).filter isControl

/-- The entries that are none, by their contents. -/
def inputsIn (pairs : List Pair) : List Content := (pairs.map Pair.content).filter (!isControl ·)

section Entries

variable {e : Pair} {rest : List Pair}

@[simp] theorem controlsIn_nil : controlsIn [] = [] := rfl

@[simp] theorem inputsIn_nil : inputsIn [] = [] := rfl

theorem controlsIn_cons (h : isControl e.content = true) :
    controlsIn (e :: rest) = e.content :: controlsIn rest := List.filter_cons_of_pos h

theorem inputsIn_cons (h : isControl e.content = true) : inputsIn (e :: rest) = inputsIn rest :=
  List.filter_cons_of_neg (by simp [h])

theorem controlsIn_cons_of_not (h : isControl e.content = false) :
    controlsIn (e :: rest) = controlsIn rest := List.filter_cons_of_neg (by simp [h])

theorem inputsIn_cons_of_not (h : isControl e.content = false) :
    inputsIn (e :: rest) = e.content :: inputsIn rest := List.filter_cons_of_pos (by simp [h])

theorem controlsIn_of_forall (h : ∀ x ∈ rest.map Pair.content, isControl x = true) :
    controlsIn rest = rest.map Pair.content := List.filter_eq_self.mpr h

theorem inputsIn_of_forall (h : ∀ x ∈ rest.map Pair.content, isControl x = true) :
    inputsIn rest = [] := List.filter_eq_nil_iff.mpr fun x hx => by simp [h x hx]

end Entries

/-- What an entry says as a control property, by its contents. -/
def SaysControl (x : Content) (c : TaskControl) : Prop :=
  ∃ (e : Pair) (key : Scalar), e.IsPair ∧ e.content = x ∧
    e.key = [⟨.scalar key.text key.plain, key.span⟩] ∧ ReadsAs (readTaskControl key) e.value c

theorem SaysControl.key_eq {x : Content} {c : TaskControl} (h : SaysControl x c) :
    x.1 = [.scalar c.key true] := by
  obtain ⟨e, key, -, rfl, hkey, hreads⟩ := h
  rw [hreads.of_yields (yields_readTaskControl key), Pair.content, hkey]
  rfl

/-- **A control property is read as what it says**, wherever it stands. -/
theorem readsAs_control_iff {body : TaskStep → Scalar → Reader TaskStep}
    (hbody : ∀ t key, key.text ∈ controlNames → body t key = t.control key) {e : Pair}
    (he : e.IsPair) (hcontrol : isControl e.content = true) {t u : TaskStep} :
    ReadsAs (Reader.scalar >>= body t) e.events u ↔ ∃ c, SaysControl e.content c ∧ c.put t = u := by
  obtain ⟨text, htext, hmem⟩ := Option.any_eq_true _ _ |>.mp hcontrol
  obtain ⟨plain, span, hkey⟩ := exists_scalar_of_textOf htext
  have hname : text ∈ controlNames := List.contains_iff_mem.mp hmem
  rw [Pair.events, hkey, List.singleton_append, readsAs_scalar_bind_iff, hbody _ _ hname, control_eq,
    ((readsNode_readTaskControl _).node he.value).readsAs_map_iff]
  refine exists_congr fun c => and_congr_left fun _ => ?_
  constructor
  · exact fun hreads => ⟨e, ⟨text, plain, span⟩, he, rfl, hkey, hreads⟩
  · rintro ⟨e', key', he', hcontent, hkey', hreads⟩
    obtain ⟨hkeys, hvalues⟩ := Prod.mk.inj hcontent
    have htext' : key'.text = text := by
      rw [hkey, hkey'] at hkeys
      exact (Event.scalar.inj (List.cons.inj hkeys).1).1
    have hnode : StaysIn (readTaskControl ⟨text, plain, span⟩) e.value :=
      (readsNode_readTaskControl _).node he.value
    obtain ⟨c', rfl, hreads'⟩ := (alike_readTaskControl htext').readsAs hnode hvalues hreads
    exact hreads'

/-! ### The entries of a step -/

/-- What the entries of a step come to. Those that are no control properties are inputs, `input` says
which. -/
theorem steps_iff {body : TaskStep → Scalar → Reader TaskStep} {input : Content → String × String}
    (hbody : ∀ t key, key.text ∈ controlNames → body t key = t.control key) {pairs : List Pair}
    (hpairs : ∀ e ∈ pairs, e.IsPair)
    (hinputs : ∀ e ∈ pairs, isControl e.content = false → ∀ t u,
      ReadsAs (Reader.scalar >>= body t) e.events u ↔ (textOf e.content.2).isSome ∧
        t.withInputs (t.inputs.insert (input e.content).1 (input e.content).2) = u)
    {t u : TaskStep} :
    Steps (fun t => Reader.scalar >>= body t) t pairs u ↔
      (∀ x ∈ inputsIn pairs, (textOf x.2).isSome) ∧
        ∃ cs, List.Forall₂ SaysControl (controlsIn pairs) cs ∧
          (cs.foldl TaskControl.put t).withInputs (t.inputs.insertAll
            ((inputsIn pairs).map input)) = u := by
  induction pairs generalizing t with
  | nil => simp [steps_nil_iff, Task.Inputs.insertAll]
  | cons e rest ih =>
      obtain ⟨he, hpairs⟩ := List.forall_mem_cons.mp hpairs
      obtain ⟨hinput, hinputs⟩ := List.forall_mem_cons.mp hinputs
      rw [steps_cons_iff]
      simp only [ih hpairs hinputs]
      cases hcontrol : isControl e.content with
      | true =>
          simp only [readsAs_control_iff hbody he hcontrol, controlsIn_cons hcontrol,
            inputsIn_cons hcontrol]
          constructor
          · rintro ⟨_, ⟨c, hc, rfl⟩, htexts, cs, hcs, rfl⟩
            exact ⟨htexts, c :: cs, .cons hc hcs, by rw [List.foldl_cons, TaskControl.put_inputs]⟩
          · rintro ⟨htexts, _, hall, rfl⟩
            obtain ⟨c, cs, hc, hcs, rfl⟩ := List.forall₂_cons_left_iff.mp hall
            exact ⟨_, ⟨c, hc, rfl⟩, htexts, cs, hcs, by rw [List.foldl_cons, TaskControl.put_inputs]⟩
      | false =>
          simp only [hinput hcontrol, controlsIn_cons_of_not hcontrol, inputsIn_cons_of_not hcontrol,
            List.forall_mem_cons, List.map_cons]
          constructor
          · rintro ⟨_, ⟨htext, rfl⟩, htexts, cs, hcs, rfl⟩
            exact ⟨⟨htext, htexts⟩, cs, hcs, by rw [TaskControl.foldl_put_withInputs]; rfl⟩
          · rintro ⟨⟨htext, htexts⟩, cs, hcs, rfl⟩
            exact ⟨_, ⟨htext, rfl⟩, htexts, cs, hcs, by rw [TaskControl.foldl_put_withInputs]; rfl⟩

/-- What control properties come to. -/
theorem steps_control_iff {body : TaskStep → Scalar → Reader TaskStep}
    (hbody : ∀ t key, key.text ∈ controlNames → body t key = t.control key) {pairs : List Pair}
    (hpairs : ∀ e ∈ pairs, e.IsPair) (hcontrol : ∀ x ∈ pairs.map Pair.content, isControl x = true)
    {t u : TaskStep} :
    Steps (fun t => Reader.scalar >>= body t) t pairs u ↔
      ∃ cs, List.Forall₂ SaysControl (pairs.map Pair.content) cs ∧ cs.foldl TaskControl.put t = u := by
  have hinputs : ∀ e ∈ pairs, isControl e.content = false → ∀ t u,
      ReadsAs (Reader.scalar >>= body t) e.events u ↔ (textOf e.content.2).isSome ∧
        t.withInputs (t.inputs.insert e.content.texts.1 e.content.texts.2) = u := fun e he hfalse =>
    absurd (hcontrol _ (List.mem_map_of_mem he)) (Bool.eq_false_iff.mp hfalse)
  rw [steps_iff hbody hpairs hinputs, inputsIn_of_forall hcontrol, controlsIn_of_forall hcontrol,
    and_iff_right (List.forall_mem_nil _)]
  refine exists_congr fun cs => and_congr_right fun _ => ?_
  rw [List.map_nil, Task.Inputs.insertAll, List.foldl_nil, ← TaskControl.foldl_put_withInputs,
    TaskStep.withInputs_self]

/-- What control properties come to with the inputs among them. -/
theorem steps_inputs_iff {body : TaskStep → Scalar → Reader TaskStep} {Given : Task.Inputs → Prop}
    (hbody : ∀ t key, key.text ∈ controlNames → body t key = t.control key)
    {before after : List Pair} {inputs : Pair} (hpairs : ∀ e ∈ before ++ after, e.IsPair)
    (hcontrol : ∀ x ∈ (before ++ after).map Pair.content, isControl x = true)
    (hinputs : ∀ t u, ReadsAs (Reader.scalar >>= body t) inputs.events u ↔
      ∃ i, Given i ∧ t.withInputs i = u) {t u : TaskStep} :
    Steps (fun t => Reader.scalar >>= body t) t (before ++ inputs :: after) u ↔
      ∃ i, Given i ∧ ∃ cs, List.Forall₂ SaysControl ((before ++ after).map Pair.content) cs ∧
        (cs.foldl TaskControl.put t).withInputs i = u := by
  induction before generalizing t with
  | nil =>
      rw [List.nil_append] at hpairs hcontrol
      rw [List.nil_append, List.nil_append, steps_cons_iff]
      simp only [hinputs, steps_control_iff hbody hpairs hcontrol]
      constructor
      · rintro ⟨_, ⟨i, hi, rfl⟩, cs, hcs, rfl⟩
        exact ⟨i, hi, cs, hcs, by rw [TaskControl.foldl_put_withInputs]⟩
      · rintro ⟨i, hi, cs, hcs, rfl⟩
        exact ⟨_, ⟨i, hi, rfl⟩, cs, hcs, by rw [TaskControl.foldl_put_withInputs]⟩
  | cons e rest ih =>
      obtain ⟨he, hpairs⟩ := List.forall_mem_cons.mp hpairs
      obtain ⟨hown, hcontrol⟩ := List.forall_mem_cons.mp hcontrol
      rw [List.cons_append, steps_cons_iff, List.cons_append, List.map_cons]
      simp only [ih hpairs hcontrol, readsAs_control_iff hbody he hown, List.forall₂_cons_left_iff]
      constructor
      · rintro ⟨_, ⟨c, hc, rfl⟩, i, hi, cs, hcs, rfl⟩
        exact ⟨i, hi, c :: cs, ⟨c, cs, hc, hcs, rfl⟩, rfl⟩
      · rintro ⟨i, hi, _, ⟨c, cs, hc, hcs, rfl⟩, rfl⟩
        exact ⟨_, ⟨c, hc, rfl⟩, i, hi, cs, hcs, rfl⟩

/-! ### Simple steps -/

theorem readsNode_control (t : TaskStep) (key : Scalar) : ReadsNode (t.control key) := by
  rw [control_eq]
  exact (readsNode_readTaskControl key).map _

theorem Shorthand.readsNode_property (s : Shorthand) (t : TaskStep) (key : Scalar) :
    ReadsNode (s.property t key) := by
  unfold Shorthand.property
  split
  · exact readsNode_scalar.map _
  · exact readsNode_control t key

theorem TaskStep.readsNode_property (t : TaskStep) (key : Scalar) : ReadsNode (t.property key) := by
  unfold TaskStep.property
  split
  · exact (readsNode_textMap _).map _
  · exact readsNode_control t key

section Mapping

variable {start stop span : Span} {text : String} {plain : Bool} {value : List Spanned}
  {others : List Pair} {r : Reader SimpleStep}

/-- A simple step is read as its first key says. -/
theorem readsAs_readSimpleStep_iff (h : simpleStep? ⟨text, plain, span⟩ = some r) {a : SimpleStep} :
    ReadsAs readSimpleStep
        (mappingEvents start stop (⟨[⟨.scalar text plain, span⟩], value⟩ :: others)) a ↔
      ReadsAs r (value ++ (others.flatMap Pair.events ++ [⟨.mappingEnd, stop⟩])) a := by
  refine forall_congr' fun rest => forall_congr' fun last => ?_
  rw [mappingEvents, List.cons_append, readSimpleStep, run_bind, run_expect, List.flatMap_cons,
    Pair.events, List.singleton_append, List.cons_append, List.cons_append, List.cons_append]
  dsimp only
  rw [run_bind, run_scalar]
  simp only [h, List.append_assoc]

/-- Where groups may stand, a simple step is read as where they may not. -/
theorem readsAs_readStep_iff (h : simpleStep? ⟨text, plain, span⟩ = some r)
    (hvalue : IsNode value) (hothers : ∀ e ∈ others, e.IsPair) {a : Step} :
    ReadsAs readStep
        (mappingEvents start stop (⟨[⟨.scalar text plain, span⟩], value⟩ :: others)) a ↔
      ∃ s, ReadsAs readSimpleStep
        (mappingEvents start stop (⟨[⟨.scalar text plain, span⟩], value⟩ :: others)) s ∧
          .simple s = a := by
  have hpairs : ∀ e ∈ ⟨[⟨.scalar text plain, span⟩], value⟩ :: others, e.IsPair :=
    List.forall_mem_cons.mpr ⟨⟨.scalar text plain span, hvalue⟩, hothers⟩
  rw [← (readsNode_readSimpleStep.node (isNode_mappingEvents hpairs)).readsAs_map_iff]
  refine forall_congr' fun rest => forall_congr' fun last => ?_
  rw [mappingEvents, List.cons_append, readStep, readSimpleStep, bind_assoc, run_bind, run_bind,
    run_expect, List.flatMap_cons, Pair.events, List.singleton_append, List.cons_append,
    List.cons_append, List.cons_append]
  dsimp only
  rw [bind_assoc, run_bind, run_bind, run_scalar]
  simp only [h]

end Mapping

end PipelineExpansion.BuildProcess
