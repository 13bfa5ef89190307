import PipelineExpansion.Proofs.Pipeline.Entry
import PipelineExpansion.Proofs.Task.Inputs

/-!
# Steps are read back from their tokens

A step that has been read refers to a task that every context with the same catalog finds under the
same name, its numbers have 32 bits, and its variables and inputs are kept in order (`Step.Sound`).
That is all it takes for its token to be read as the same step again, with nothing else to follow
or to read.

## Main results

* `yields_stepList`: steps that have been read are sound.
* `stepsOfItem_toToken`, `stepList_stepsToken`: sound steps are read back from their tokens.
-/

namespace PipelineExpansion.Pipeline

open Template (Context Entry Key Resolve Token)
open Template.Resolve

variable {tasks : Option Task.Catalog} {refs : References} {c : Context} {t : Token}

/-! ### What holds of steps that have been read -/

/-- A reference that is found under its text wherever these tasks are known. -/
def TaskReference.Known (tasks : Option Task.Catalog) (r : TaskReference) : Prop :=
  ∀ c : Context, c.tasks = tasks → taskReference c r.nameAndVersion = .ok r

/-- A whole number of 32 bits. -/
def IsInt32 (n : Int) : Prop := -2147483648 ≤ n ∧ n ≤ 2147483647

/-- The control properties are such as can be read. -/
structure Step.Controlled (s : Step) : Prop where
  retry : ∀ n ∈ s.retryCountOnTaskFailure, IsInt32 n
  timeout : ∀ n ∈ s.timeoutInMinutes, IsInt32 n
  env : s.env.Canonical

/-- What holds of every step that has been read where these tasks are known. -/
structure Step.Sound (tasks : Option Task.Catalog) (s : Step) : Prop extends s.Controlled where
  reference : s.reference.Known tasks
  inputs : s.inputs.Named

theorem ensures_taskReference (c : Context) (task : String) :
    Ensures (taskReference c task) (TaskReference.Known c.tasks) := by
  intro r hr c' htasks
  have hsame : taskReference c' task = taskReference c task := by
    rw [taskReference, taskReference, htasks]
  suffices hname : r.nameAndVersion = task by rw [hname, hsame, hr]
  unfold taskReference at hr
  split at hr
  · cases hr
    rfl
  · split at hr
    · cases hr
      rfl
    · split at hr
      · cases hr
        rfl
      · cases hr

theorem ensures_located {α : Type} {span : Option Yaml.Span} {r : Except Diagnostic α}
    {P : α → Prop} (h : Ensures r P) : Ensures (located span r) P :=
  fun a ha => h a (mapError_eq_ok.mp ha)

theorem ensures_expectInt32 (t : Token) (what : String) : Ensures (expectInt32 t what) IsInt32 := by
  refine ensures_bind_of_forall fun n => ?_
  split
  · next h => exact ensures_pure (by simpa [IsInt32] using h)
  · exact ensures_error _ _

theorem ensures_control? {s : Step} (h : s.Controlled) (e : Entry) :
    Ensures (s.control? e) fun found => ∀ s' ∈ found, s'.Controlled := by
  have hsome {s' : Step} (hs' : s'.Controlled) : ∀ s'' ∈ some s', s''.Controlled := by
    rintro _ ⟨⟩
    exact hs'
  obtain ⟨key, value⟩ := e
  unfold Step.control?
  simp only
  split
  case h_4 =>
    exact (ensures_expectInt32 _ _).bind fun n hn =>
      ensures_pure (hsome { h with retry := by rintro _ ⟨⟩; exact hn })
  case h_5 =>
    exact (ensures_expectInt32 _ _).bind fun n hn =>
      ensures_pure (hsome { h with timeout := by rintro _ ⟨⟩; exact hn })
  case h_7 =>
    exact ensures_bind_of_forall fun entries =>
      ensures_pure (hsome { h with env := Dictionary.canonical_foldl_put entries .nil })
  case h_10 => exact ensures_ok fun _ hnone => nomatch hnone
  all_goals
    refine ensures_bind_of_forall fun _ => ?_
    exact ensures_pure (hsome { h with })

theorem ensures_controls {s : Step} (h : s.Controlled) (entries : List Entry) :
    Ensures (s.controls entries) fun r => r.1.Controlled := by
  induction entries generalizing s with
  | nil => exact ensures_ok h
  | cons e rest ih =>
      refine (ensures_control? h e).bind fun found hfound => ?_
      cases found with
      | some s' => exact ih (hfound s' rfl)
      | none => exact (ih h).bind fun _ hr => ensures_pure hr

theorem ensures_addInput {i : Task.Inputs} (h : i.Named) (e : Entry) :
    Ensures (addInput i e) Task.Inputs.Named :=
  ensures_bind_of_forall fun _ => ensures_pure h.insert

theorem ensures_addTaskInputs {i : Task.Inputs} (h : i.Named) (e : Entry) :
    Ensures (addTaskInputs i e) Task.Inputs.Named := by
  unfold addTaskInputs
  split
  · exact ensures_bind_of_forall fun pairs => ensures_pure (h.insertAll pairs)
  · exact ensures_ok h

theorem ensures_ofEntries? (c : Context) (key : Key) (value : Token) (rest : List Entry) :
    Ensures (Step.ofEntries? c key value rest) (Step.Sound c.tasks) := by
  have hnew : ({} : Step).Controlled := ⟨nofun, nofun, Dictionary.canonical_nil⟩
  refine (ensures_controls hnew rest).bind fun r hr => ensures_bind_of_forall fun primary => ?_
  split
  · refine (ensures_located (ensures_taskReference c primary)).bind fun reference hreference => ?_
    have hinputs := ensures_foldlM (fun _ e hi => ensures_addTaskInputs hi e)
      Task.Inputs.named_empty r.2
    exact hinputs.bind fun inputs hinputs =>
      ensures_pure { hr with reference := hreference, inputs := hinputs }
  · split
    · next s _ =>
      refine (ensures_located (ensures_taskReference c s.task)).bind fun reference hreference => ?_
      refine (ensures_foldlM (fun _ e hi => ensures_addInput hi e) Task.Inputs.named_empty r.2).bind
        fun inputs hinputs => ensures_pure
          { hr with reference := hreference, inputs := hinputs.insert.insertAll s.given }
    · exact ensures_error _ _

/-- Steps that references lead to are sound. -/
def References.SoundSteps (refs : References) : Prop :=
  ∀ c path parameters, Yields (refs.steps c path parameters) fun ss => ∀ s ∈ ss, s.Sound c.tasks

theorem yields_stepsOfItem (hrefs : refs.SoundSteps) (c : Context) (t : Token) :
    Yields (stepsOfItem refs c t) fun ss => ∀ s ∈ ss, s.Sound c.tasks := by
  unfold stepsOfItem
  refine yields_bind_of_forall fun entries => ?_
  split
  · exact yields_throw _ _
  · next key value rest =>
    split
    · refine yields_bind_of_forall fun path => ?_
      refine yields_bind_of_forall fun parameters => ?_
      exact hrefs c path parameters
    · refine (yields_ofExcept (ensures_ofEntries? c key value rest)).bind fun s hs => ?_
      exact yields_pure (List.forall_mem_singleton.mpr hs)

theorem collects_stepsOfItems (refs : References) (c : Context) :
    Collects (stepsOfItem refs c) (stepsOfItems refs c) :=
  ⟨rfl, fun _ _ => rfl⟩

theorem yields_stepsOfItems (hrefs : refs.SoundSteps) (c : Context) (items : List Token) :
    Yields (stepsOfItems refs c items) fun ss => ∀ s ∈ ss, s.Sound c.tasks :=
  (collects_stepsOfItems refs c).yields (yields_stepsOfItem hrefs c) items

/-- **Steps that have been read are sound.** -/
theorem yields_stepList (hrefs : refs.SoundSteps) (c : Context) (t : Token) :
    Yields (stepList refs c t) fun ss => ∀ s ∈ ss, s.Sound c.tasks := by
  unfold stepList
  split
  · exact yields_pure (List.forall_mem_nil _)
  · exact yields_bind_of_forall fun items => yields_stepsOfItems hrefs c items

/-! ### Steps are read back -/

theorem Target.read_settableVariables (a : Target) (names : List String) :
    Target.read a (madeEntry ("settableVariables",
        if names.isEmpty then .ofText "none" else textsToken names))
      = .ok { a with settableVariables := some names } := by
  cases names with
  | nil => rfl
  | cons first rest =>
      have htexts := expectTexts_textsToken (first :: rest) "settableVariables"
      change ((textsToken (first :: rest)).expectTexts "settableVariables" >>= fun texts =>
        pure { a with settableVariables := some texts }) = _
      rw [htexts]
      rfl

theorem Target.ofToken?_toToken (target : Target) :
    Target.ofToken? target.toToken = .ok target := by
  suffices Leads Target.read {} _ target from this
  rw [List.append_assoc]
  refine Leads.append
    (leads_field (fun a o => { a with container := o }) rfl (fun _ _ => rfl) rfl) ?_
  refine Leads.append
    (leads_field (fun a o => { a with commands := o }) rfl (fun _ _ => rfl) rfl) ?_
  exact leads_field (fun a o => { a with settableVariables := o }) rfl
    (fun names _ => read_settableVariables _ names) rfl

theorem expectInt32_ofInt {n : Int} (what : String) (h : IsInt32 n) :
    expectInt32 (.ofInt n) what = .ok n := by
  obtain ⟨hlow, hhigh⟩ := h
  have hplaces : n.natAbs < 9007199254740992 := by omega
  rw [expectInt32, Token.expectInt_ofInt what hplaces]
  exact if_pos (by simp [hlow, hhigh])

/-- Reads a control property. A reader that fails here finds none, or one that is not as it
should be. -/
def Step.control (s : Step) (e : Entry) : OptionT (Except Diagnostic) Step := .mk (s.control? e)

theorem control_eq {a b : Step} {e : Entry} (h : a.control? e = .ok (some b)) :
    a.control e = pure b :=
  congrArg OptionT.mk h

/-- Control properties are taken before what is left over. -/
theorem controls_of_leads {a b : Step} {pairs : List (String × Token)}
    (h : Leads Step.control a pairs b) (rest : List Entry) :
    a.controls (pairs.map madeEntry ++ rest) = b.controls rest := by
  induction pairs generalizing a with
  | nil =>
    cases h
    rfl
  | cons p pairs ih =>
    rw [Leads, List.map_cons, List.foldlM_cons] at h
    rw [List.map_cons, List.cons_append, Step.controls]
    cases hcontrol : a.control? (madeEntry p) with
    | error d => cases (congrArg (OptionT.mk · >>= _) hcontrol).symm.trans h
    | ok found =>
        have h := (congrArg (OptionT.mk · >>= _) hcontrol).symm.trans h
        cases found with
        | none => cases h
        | some a' => exact ih h

theorem Step.control?_env (s : Step) {env : Dictionary String} (h : env.Canonical) :
    s.control? (madeEntry ("env", pairsToken env)) = .ok (some { s with env }) := by
  refine (bind_of_eq_pure (expectTextMap_pairsToken env _) _).trans ?_
  rw [Dictionary.ofEntries_eq_of_perm h (.refl _)]
  rfl

/-- The control properties of a step as they are written. -/
def Step.controlPairs (s : Step) : List (String × Token) :=
  field "name" .ofText s.name
    ++ (field "displayName" .ofText s.displayName
    ++ (field "condition" .ofText s.condition
    ++ (field "continueOnError" .ofBool s.continueOnError
    ++ (field "enabled" .ofBool s.enabled
    ++ (field "retryCountOnTaskFailure" .ofInt s.retryCountOnTaskFailure
    ++ (field "timeoutInMinutes" .ofInt s.timeoutInMinutes
    ++ (field "target" Target.toToken s.target
    ++ (if s.env.isEmpty then [] else [("env", pairsToken s.env)]))))))))

/-- The inputs of a step as they are written. -/
def Step.inputPairs (s : Step) : List (String × Token) :=
  if s.inputs.size = 0 then [] else [("inputs", pairsToken s.inputs.toList)]

theorem Step.entries?_toToken (s : Step) :
    s.toToken.entries? = some (madeEntry ("task", .ofText s.reference.nameAndVersion)
      :: (s.controlPairs.map madeEntry ++ s.inputPairs.map madeEntry)) := by
  rw [toToken, entries?_ofPairs]
  simp only [List.append_assoc, List.map_append, List.cons_append, List.nil_append, controlPairs,
    inputPairs, List.map_cons]

theorem Step.leads_controlPairs {s : Step} (h : s.Controlled) :
    Leads Step.control {} s.controlPairs { s with reference := {}, inputs := ∅ } := by
  refine Leads.append (leads_field (fun a o => { a with name := o }) rfl (fun _ _ => rfl) rfl) ?_
  refine Leads.append
    (leads_field (fun a o => { a with displayName := o }) rfl (fun _ _ => rfl) rfl) ?_
  refine Leads.append
    (leads_field (fun a o => { a with condition := o }) rfl (fun _ _ => rfl) rfl) ?_
  refine Leads.append
    (leads_field (fun a o => { a with continueOnError := o }) rfl (fun _ _ => rfl) rfl) ?_
  refine Leads.append (leads_field (fun a o => { a with enabled := o }) rfl (fun _ _ => rfl) rfl) ?_
  refine Leads.append (leads_field (fun a o => { a with retryCountOnTaskFailure := o }) rfl
    (fun n hn => control_eq (bind_of_eq_pure (expectInt32_ofInt _ (h.retry n hn)) _)) rfl) ?_
  refine Leads.append (leads_field (fun a o => { a with timeoutInMinutes := o }) rfl
    (fun n hn => control_eq (bind_of_eq_pure (expectInt32_ofInt _ (h.timeout n hn)) _)) rfl) ?_
  refine Leads.append (leads_field (fun a o => { a with target := o }) rfl
    (fun target _ => control_eq (bind_of_eq_pure target.ofToken?_toToken _)) rfl) ?_
  refine Leads.unless (fun hempty => ?_) (fun _ => ?_)
  · exact congrArg (fun env => ({ s with reference := {}, env, inputs := ∅ } : Step))
      (List.isEmpty_iff.mp hempty)
  · exact control_eq (control?_env _ h.env)

theorem Step.controls_toToken {s : Step} (h : s.Controlled) :
    ({} : Step).controls (s.controlPairs.map madeEntry ++ s.inputPairs.map madeEntry)
      = .ok ({ s with reference := {}, inputs := ∅ }, s.inputPairs.map madeEntry) := by
  rw [controls_of_leads (leads_controlPairs h), inputPairs]
  split <;> rfl

theorem Step.leads_inputPairs {s : Step} (h : s.inputs.Named) :
    Leads addTaskInputs ∅ s.inputPairs s.inputs := by
  refine Leads.unless (fun hempty => ?_) (fun _ => ?_)
  · exact congrArg Task.Inputs.mk (List.eq_nil_of_length_eq_zero hempty)
  · have hread := bind_of_eq_pure (expectTextMap_pairsToken s.inputs.toList "inputs") fun pairs =>
      pure ((∅ : Task.Inputs).insertAll pairs)
    rw [← Task.Inputs.ofList, Task.Inputs.ofList_eq_of_perm h (.refl _)] at hread
    exact hread

/-- **A sound step is read back from its token**, whatever references may lead to. -/
theorem stepsOfItem_toToken {s : Step} (h : s.Sound tasks) (hc : c.tasks = tasks)
    (ht : t.entries? = s.toToken.entries?) : stepsOfItem refs c t = pure [s] := by
  rw [s.entries?_toToken] at ht
  have hreference : located none (taskReference c s.reference.nameAndVersion) = .ok s.reference :=
    mapError_eq_ok.mpr (h.reference c hc)
  have hstep : Step.ofEntries? c ⟨.unknown, "task"⟩ (.ofText s.reference.nameAndVersion)
      (s.controlPairs.map madeEntry ++ s.inputPairs.map madeEntry) = .ok s := by
    refine (bind_of_eq_pure (Step.controls_toToken h.toControlled) _).trans ?_
    refine (bind_of_eq_pure hreference _).trans ?_
    exact bind_of_eq_pure (Step.leads_inputPairs h.inputs) _
  rw [stepsOfItem, Token.expectMapping_eq _ ht]
  exact bind_of_eq_pure (congrArg Resolve.ofExcept hstep) _

/-- **Sound steps are read back from their token.** -/
theorem stepList_stepsToken {steps : List Step} (h : ∀ s ∈ steps, s.Sound tasks)
    (hc : c.tasks = tasks) (ht : t.items? = (stepsToken steps).items?) :
    stepList refs c t = pure steps := by
  have hitems : t.items? = some (steps.map Step.toToken) := ht
  rw [stepList, Token.isNull_eq_false_of_items? hitems, Token.expectSequence_eq _ hitems]
  have hsteps := (collects_stepsOfItems refs c).map_eq_pure id fun s hs =>
    stepsOfItem_toToken (h s hs) hc rfl
  rwa [List.map_id] at hsteps

end PipelineExpansion.Pipeline
