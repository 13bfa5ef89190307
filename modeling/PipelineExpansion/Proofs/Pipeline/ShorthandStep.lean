import PipelineExpansion.Pipeline.Steps
import PipelineExpansion.Proofs.Reordering
import PipelineExpansion.Proofs.Task.Inputs
import PipelineExpansion.Proofs.Template.Resolve
import PipelineExpansion.Proofs.Template.Token
import PipelineExpansion.Proofs.Template.Unplaced

/-!
# Shorthands in pipelines are tasks

A step of a pipeline that is a shorthand for a task takes all keys that are no control properties as
inputs, besides those that it gives itself. It is the step that the task in full is, if none of these
inputs has the name of another.

Control properties are read first, and in their order; what they say depends on nothing else
(`StepControl.put`). The inputs come to the same in whatever order they are given.

## Main results

* `controls_eq_ok_iff`: what control properties come to, and what they leave over.
* `Shorthand.TwoForms.stepsOfItem_iff`: a shorthand is read as its task.
-/

namespace PipelineExpansion.Pipeline

open Template (Context Entry Journal Key Resolve Token unplacedEntry)

/-! ### Control properties -/

/-- What a control property says. -/
inductive StepControl where
  | condition (text : String)
  | continueOnError (b : Bool)
  | enabled (b : Bool)
  | retryCountOnTaskFailure (n : Int)
  | timeoutInMinutes (n : Int)
  | target (t : Target)
  | env (d : Dictionary String)
  | name (text : String)
  | displayName (text : String)

/-- The key of a control property. -/
def StepControl.key : StepControl → String
  | condition _ => "condition"
  | continueOnError _ => "continueOnError"
  | enabled _ => "enabled"
  | retryCountOnTaskFailure _ => "retryCountOnTaskFailure"
  | timeoutInMinutes _ => "timeoutInMinutes"
  | target _ => "target"
  | env _ => "env"
  | name _ => "name"
  | displayName _ => "displayName"

/-- A step with what a control property says. -/
def StepControl.put (s : Step) : StepControl → Step
  | condition text => { s with condition := some text }
  | continueOnError b => { s with continueOnError := some b }
  | enabled b => { s with enabled := some b }
  | retryCountOnTaskFailure n => { s with retryCountOnTaskFailure := some n }
  | timeoutInMinutes n => { s with timeoutInMinutes := some n }
  | target t => { s with target := some t }
  | env d => { s with env := d }
  | name text => { s with name := some text }
  | displayName text => { s with displayName := some text }

/-- Control properties with different keys do not get in each other's way. -/
theorem StepControl.put_comm {s : Step} {c d : StepControl} (h : c.key ≠ d.key) :
    d.put (c.put s) = c.put (d.put s) := by
  cases c <;> cases d <;> first | rfl | exact absurd rfl h

/-- Reads what a control property says. -/
def readStepControl (e : Entry) : Except Diagnostic (Option StepControl) :=
  match e.1.name with
  | "condition" => do return some (.condition (← e.2.expectText "condition"))
  | "continueOnError" => do return some (.continueOnError (← e.2.expectBool "continueOnError"))
  | "enabled" => do return some (.enabled (← e.2.expectBool "enabled"))
  | "retryCountOnTaskFailure" => do
    return some (.retryCountOnTaskFailure (← expectInt32 e.2 "retryCountOnTaskFailure"))
  | "timeoutInMinutes" => do return some (.timeoutInMinutes (← expectInt32 e.2 "timeoutInMinutes"))
  | "target" => do return some (.target (← Target.ofToken? e.2))
  | "env" => do return some (.env (Dictionary.ofEntries (← e.2.expectTextMap "env")))
  | "name" => do return some (.name (← e.2.expectText "name"))
  | "displayName" => do return some (.displayName (← e.2.expectText "displayName"))
  | _ => .ok none

theorem control?_eq (s : Step) (e : Entry) :
    s.control? e = readStepControl e >>= fun found => pure (found.map (·.put s)) := by
  obtain ⟨key, value⟩ := e
  unfold Step.control? readStepControl
  dsimp only
  split <;> (try simp only [*, bind_assoc, pure_bind]) <;> rfl

/-- The names of the control properties. -/
def stepControlNames : List String :=
  ["condition", "continueOnError", "enabled", "retryCountOnTaskFailure", "timeoutInMinutes", "target",
    "env", "name", "displayName"]

/-- An entry is a control property. -/
def isStepControl (e : Entry) : Bool := stepControlNames.contains e.1.name

theorem readStepControl_of_not {e : Entry} (h : isStepControl e = false) :
    readStepControl e = .ok none := by
  unfold readStepControl
  split
  case h_10 => rfl
  all_goals
    next hname =>
    rw [isStepControl, hname] at h
    cases h

/-- Of a control property something is read, and it has the same key. -/
theorem ensures_readStepControl {e : Entry} (h : isStepControl e = true) :
    Ensures (readStepControl e) fun found => ∃ c, found = some c ∧ c.key = e.1.name := by
  unfold readStepControl
  split
  case h_10 =>
    have hmem : e.1.name ∈ stepControlNames := List.contains_iff_mem.mp h
    simp_all [stepControlNames]
  all_goals
    next hname => exact ensures_bind_of_forall fun _ => ensures_pure ⟨_, rfl, hname.symm⟩

/-! #### What is read is the same at other places -/

theorem toOption_expectInt32_unplaced (t : Token) (what : String) :
    (expectInt32 t.unplaced what).toOption = (expectInt32 t what).toOption := by
  rw [expectInt32, expectInt32, toOption_bind, toOption_bind, Token.toOption_expectInt_unplaced]
  refine congrArg _ (funext fun n => ?_)
  split <;> rfl

theorem toOption_readTarget_unplaced (target : Target) (e : Entry) :
    (target.read (unplacedEntry e)).toOption = (target.read e).toOption := by
  unfold Target.read unplacedEntry
  dsimp only
  rw [Token.text?_unplaced]
  split
  · rfl
  · rfl
  · split
    · rfl
    · rw [toOption_bind, toOption_bind, Token.toOption_expectTexts_unplaced]
  · rfl

theorem toOption_targetOfToken_unplaced (t : Token) :
    (Target.ofToken? t.unplaced).toOption = (Target.ofToken? t).toOption := by
  unfold Target.ofToken?
  rw [Token.text?_unplaced]
  split
  · rfl
  · rw [toOption_bind, toOption_bind, Token.toOption_expectMapping, Token.toOption_expectMapping,
      Token.entries?_unplaced, Option.bind_map]
    exact congrArg _ (funext fun entries => toOption_foldlM_map toOption_readTarget_unplaced entries _)

theorem toOption_readStepControl_unplaced (e : Entry) :
    (readStepControl (unplacedEntry e)).toOption = (readStepControl e).toOption := by
  unfold readStepControl unplacedEntry
  dsimp only
  split <;> simp only [toOption_bind, Token.toOption_expectText_unplaced,
    Token.toOption_expectBool_unplaced, toOption_expectInt32_unplaced,
    toOption_targetOfToken_unplaced, Token.toOption_expectTextMap_unplaced]

/-! #### What control properties come to -/

/-- An entry without its places, by its name. -/
def content (e : Entry) : String × Token := (e.1.name, e.2.unplaced)

/-- What an entry says as a control property, by its content. -/
def SaysStepControl (x : String × Token) (c : StepControl) : Prop :=
  readStepControl (⟨.unknown, x.1⟩, x.2) = .ok (some c)

theorem saysStepControl_content_iff {e : Entry} {c : StepControl} :
    SaysStepControl (content e) c ↔ readStepControl e = .ok (some c) := by
  rw [← toOption_eq_some, ← toOption_readStepControl_unplaced, toOption_eq_some]
  rfl

theorem SaysStepControl.key_eq {x : String × Token} {c : StepControl} (h : SaysStepControl x c) :
    c.key = x.1 := by
  cases hcontrol : isStepControl (⟨.unknown, x.1⟩, x.2) with
  | false => cases (readStepControl_of_not hcontrol).symm.trans h
  | true =>
      obtain ⟨_, ⟨⟩, hkey⟩ := ensures_readStepControl hcontrol _ h
      exact hkey

/-- **What control properties come to**, and what they leave over. -/
theorem controls_eq_ok_iff {s s' : Step} {entries left : List Entry} :
    s.controls entries = .ok (s', left) ↔ entries.filter (!isStepControl ·) = left ∧
      ∃ cs, List.Forall₂ SaysStepControl ((entries.filter isStepControl).map content) cs ∧
        cs.foldl StepControl.put s = s' := by
  induction entries generalizing s s' left with
  | nil => simp [Step.controls, and_comm, eq_comm]
  | cons e rest ih =>
      rw [Step.controls, control?_eq]
      cases hcontrol : isStepControl e with
      | false =>
          rw [readStepControl_of_not hcontrol]
          change (s.controls rest >>= fun r => pure (r.1, e :: r.2)) = _ ↔ _
          simp only [bind_eq_ok, Prod.exists, ih, List.filter_cons, hcontrol, Bool.not_false,
            Bool.false_eq_true, if_true, if_false]
          constructor
          · rintro ⟨_, _, ⟨rfl, cs, hcs, rfl⟩, ⟨⟩⟩
            exact ⟨rfl, cs, hcs, rfl⟩
          · rintro ⟨rfl, cs, hcs, rfl⟩
            exact ⟨_, _, ⟨rfl, cs, hcs, rfl⟩, rfl⟩
      | true =>
          simp only [List.filter_cons, hcontrol, Bool.not_true, Bool.false_eq_true, if_true, if_false,
            List.map_cons, List.forall₂_cons_left_iff, saysStepControl_content_iff]
          cases hread : readStepControl e with
          | error d =>
              refine ⟨nofun, ?_⟩
              rintro ⟨-, _, ⟨c, -, hc, -⟩, -⟩
              cases hc
          | ok found =>
              obtain ⟨c, rfl, -⟩ := ensures_readStepControl hcontrol found hread
              change (c.put s).controls rest = _ ↔ _
              rw [ih]
              constructor
              · rintro ⟨hleft, cs, hcs, rfl⟩
                exact ⟨hleft, c :: cs, ⟨c, cs, rfl, hcs, rfl⟩, rfl⟩
              · rintro ⟨hleft, _, ⟨_, cs, ⟨⟩, hcs, rfl⟩, rfl⟩
                exact ⟨hleft, cs, hcs, rfl⟩

/-! ### Inputs -/

/-- The text that an entry gives an input, with the name of the input. -/
def inputText (e : Entry) : String × String := (e.1.name, e.2.display?.getD "")

theorem expectText_eq_ok_iff {t : Token} {what text : String} :
    t.expectText what = .ok text ↔ t.display?.isSome ∧ t.display?.getD "" = text := by
  rw [← toOption_eq_some, Token.toOption_expectText]
  cases t.display? with
  | none => exact ⟨nofun, nofun⟩
  | some own => exact ⟨fun h => ⟨rfl, Option.some.inj h⟩, fun h => congrArg some h.2⟩

/-- Entries are inputs if all of them have a text. -/
theorem foldlM_addInput_eq_ok_iff {i i' : Task.Inputs} {entries : List Entry} :
    entries.foldlM addInput i = .ok i' ↔
      (∀ e ∈ entries, e.2.display?.isSome) ∧ i.insertAll (entries.map inputText) = i' := by
  have hadd : ∀ i e i', addInput i e = .ok i' ↔
      e.2.display?.isSome ∧ i.insert (inputText e).1 (inputText e).2 = i' := by
    intro i e i'
    simp only [addInput, bind_eq_ok, expectText_eq_ok_iff]
    constructor
    · rintro ⟨_, ⟨hsome, rfl⟩, ⟨⟩⟩
      exact ⟨hsome, rfl⟩
    · rintro ⟨hsome, rfl⟩
      exact ⟨_, ⟨hsome, rfl⟩, rfl⟩
  rw [foldlM_eq_ok_iff hadd, Task.Inputs.insertAll, List.foldl_map]

theorem isNull_of_entries? {t : Token} {entries : List Entry} (h : t.entries? = some entries) :
    t.isNull = false := by
  cases t with
  | null o => cases h
  | _ => rfl

/-- A mapping has the texts of its entries if all of them have one. -/
theorem expectTextMap_eq_ok_iff {t : Token} {entries : List Entry} (h : t.entries? = some entries)
    {what : String} {pairs : List (String × String)} :
    t.expectTextMap what = .ok pairs ↔
      (∀ e ∈ entries, e.2.display?.isSome) ∧ entries.map inputText = pairs := by
  rw [Token.expectTextMap, isNull_of_entries? h, Token.expectMapping_eq _ h]
  refine mapM_eq_ok_iff fun e pair => ?_
  simp only [bind_eq_ok, expectText_eq_ok_iff]
  constructor
  · rintro ⟨_, ⟨hsome, rfl⟩, ⟨⟩⟩
    exact ⟨hsome, rfl⟩
  · rintro ⟨hsome, rfl⟩
    exact ⟨_, ⟨hsome, rfl⟩, rfl⟩

/-! ### Steps -/

/-- A step with control properties, a task and its inputs. -/
def stepOf (cs : List StepControl) (reference : TaskReference) (inputs : Task.Inputs) : Step :=
  { cs.foldl StepControl.put {} with reference, inputs }

/-- What a shorthand is read as. -/
theorem ofEntries?_shorthand_iff {c : Context} {key : Key} {s : Shorthand} {primary : Token}
    {rest : List Entry} (hs : shorthand? key.name = some s) {a : Step} :
    Step.ofEntries? c key primary rest = .ok a ↔
      primary.display?.isSome ∧ (∀ e ∈ rest.filter (!isStepControl ·), e.2.display?.isSome) ∧
      ∃ reference cs, taskReference c s.task = .ok reference ∧
        List.Forall₂ SaysStepControl ((rest.filter isStepControl).map content) cs ∧
        stepOf cs reference (.ofList ((rest.filter (!isStepControl ·)).map inputText ++
          (s.input, primary.display?.getD "") :: s.given)) = a := by
  have htask : key.name ≠ "task" := by
    intro h
    rw [h] at hs
    cases hs
  have hinsert (i : Task.Inputs) (text : String) : (i.insert s.input text).insertAll s.given =
      i.insertAll ((s.input, text) :: s.given) := rfl
  simp only [Step.ofEntries?, bind_eq_ok, if_neg htask, hs, Prod.exists, controls_eq_ok_iff, located,
    mapError_eq_ok, expectText_eq_ok_iff, foldlM_addInput_eq_ok_iff, hinsert]
  constructor
  · rintro ⟨_, _, ⟨rfl, cs, hcs, rfl⟩, _, ⟨hsome, rfl⟩, reference, hreference, _, ⟨hvalues, rfl⟩, ⟨⟩⟩
    refine ⟨hsome, hvalues, reference, cs, hreference, hcs, ?_⟩
    rw [Task.Inputs.ofList, Task.Inputs.insertAll_append]
    rfl
  · rintro ⟨hsome, hvalues, reference, cs, hreference, hcs, rfl⟩
    refine ⟨_, _, ⟨rfl, cs, hcs, rfl⟩, _, ⟨hsome, rfl⟩, reference, hreference, _, ⟨hvalues, rfl⟩, ?_⟩
    rw [Task.Inputs.ofList, Task.Inputs.insertAll_append]
    rfl

/-- What a task is read as, with its inputs among the control properties. -/
theorem ofEntries?_task_iff {c : Context} {task inputs : Entry} {before given after : List Entry}
    {name : String} (htask : task.1.name = "task") (hname : task.2.display? = some name)
    (hinputs : inputs.1.name = "inputs") (hgiven : inputs.2.entries? = some given)
    (hcontrol : ∀ e ∈ before ++ after, isStepControl e = true) {a : Step} :
    Step.ofEntries? c task.1 task.2 (before ++ inputs :: after) = .ok a ↔
      (∀ e ∈ given, e.2.display?.isSome) ∧
      ∃ reference cs, taskReference c name = .ok reference ∧
        List.Forall₂ SaysStepControl ((before ++ after).map content) cs ∧
        stepOf cs reference (.ofList (given.map inputText)) = a := by
  obtain ⟨hbefore, hafter⟩ := List.forall_mem_append.mp hcontrol
  have hother : isStepControl inputs = false := by
    rw [isStepControl, hinputs]
    rfl
  have hnone {es : List Entry} (h : ∀ e ∈ es, isStepControl e = true) :
      es.filter (!isStepControl ·) = [] := List.filter_eq_nil_iff.mpr fun e he => by simp [h e he]
  have hleft : (before ++ inputs :: after).filter (!isStepControl ·) = [inputs] := by
    rw [List.filter_append, hnone hbefore, List.nil_append, List.filter_cons, hnone hafter, hother]
    rfl
  have hkept : (before ++ inputs :: after).filter isStepControl = before ++ after := by
    rw [List.filter_append, List.filter_cons, hother, List.filter_eq_self.mpr hbefore,
      List.filter_eq_self.mpr hafter]
    rfl
  have hread {i : Task.Inputs} : [inputs].foldlM addTaskInputs ∅ = .ok i ↔
      (∀ e ∈ given, e.2.display?.isSome) ∧ .ofList (given.map inputText) = i := by
    rw [List.foldlM_cons, addTaskInputs, if_pos (by simp [hinputs, isNull_of_entries? hgiven]),
      bind_assoc, bind_eq_ok]
    simp only [expectTextMap_eq_ok_iff hgiven]
    constructor
    · rintro ⟨_, ⟨hvalues, rfl⟩, ⟨⟩⟩
      exact ⟨hvalues, rfl⟩
    · rintro ⟨hvalues, rfl⟩
      exact ⟨_, ⟨hvalues, rfl⟩, rfl⟩
  simp only [Step.ofEntries?, bind_eq_ok, if_pos htask, Prod.exists, controls_eq_ok_iff, located,
    mapError_eq_ok, expectText_eq_ok_iff, hname, hleft, hkept, Option.isSome_some, Option.getD_some,
    true_and]
  constructor
  · rintro ⟨_, _, ⟨rfl, cs, hcs, rfl⟩, _, rfl, reference, hreference, _, hinputs, ⟨⟩⟩
    obtain ⟨hvalues, rfl⟩ := hread.mp hinputs
    exact ⟨hvalues, reference, cs, hreference, hcs, rfl⟩
  · rintro ⟨hvalues, reference, cs, hreference, hcs, rfl⟩
    exact ⟨_, _, ⟨rfl, cs, hcs, rfl⟩, _, rfl, reference, hreference, _, hread.mpr ⟨hvalues, rfl⟩, rfl⟩

/-- An item that is no template is one step. -/
theorem run_stepsOfItem_eq_ok_iff {refs : References} {c : Context} {t : Token} {e : Entry}
    {rest : List Entry} (ht : t.entries? = some (e :: rest)) (hkey : e.1.name ≠ "template")
    {j j' : Journal} {steps : List Step} :
    (stepsOfItem refs c t).run.run j = some (.ok steps, j') ↔
      ∃ s, Step.ofEntries? c e.1 e.2 rest = .ok s ∧ [s] = steps ∧ j = j' := by
  rw [stepsOfItem, Token.expectMapping_eq _ ht, Resolve.ofExcept_ok_bind]
  dsimp only
  rw [if_neg hkey, Resolve.run_bind_eq_ok]
  simp only [Resolve.run_ofExcept_eq_ok]
  constructor
  · rintro ⟨s, _, ⟨hs, rfl⟩, ⟨⟩⟩
    exact ⟨s, hs, rfl, rfl⟩
  · rintro ⟨s, hs, rfl, rfl⟩
    exact ⟨s, _, ⟨hs, rfl⟩, rfl⟩

/-! ### Both forms -/

/-- The keywords of the shorthands. -/
def shorthandKeywords : List String :=
  ["script", "bash", "powershell", "pwsh", "checkout", "download", "downloadBuild", "getPackage",
    "publish", "reviewApp"]

theorem isSome_shorthand?_iff {keyword : String} :
    (shorthand? keyword).isSome ↔ keyword ∈ shorthandKeywords := by
  unfold shorthand?
  split
  case h_11 => simp_all [shorthandKeywords]
  all_goals decide

/-- What an entry gives as an input: a name, and a text if it has one. -/
def shown (e : Entry) : String × Option String := (e.1.name, e.2.display?)

/-- The inputs that a shorthand gives itself. -/
def Shorthand.own (s : Shorthand) (primary : Token) : List (String × Option String) :=
  (s.input, primary.display?) :: s.given.map fun p => (p.1, some p.2)

/-- The entries behind the first one of a shorthand: control properties and others in any order. The
others have different names, in whatever case of letters, and none has one of the shorthand's own. -/
structure Shorthand.Heads (s : Shorthand) (rest : List Entry) : Prop where
  distinct : (rest.filter (!isStepControl ·)).Pairwise fun a b =>
    Text.sameName a.1.name b.1.name = false
  others : ∀ name ∈ s.input :: s.given.map Prod.fst, ∀ e ∈ rest.filter (!isStepControl ·),
    Text.sameName name e.1.name = false

/-- The entries of the task that a shorthand stands for: a reference to it first, and then the same
control properties in any order and, somewhere among them, the inputs. -/
structure Shorthand.InFull (s : Shorthand) (primary : Token) (rest : List Entry) (task inputs : Entry)
    (before given after : List Entry) : Prop where
  taskKey : task.1.name = "task"
  reference : task.2.display? = some s.task
  inputsKey : inputs.1.name = "inputs"
  mapping : inputs.2.entries? = some given
  given : (given.map shown).Perm
    (s.own primary ++ (rest.filter (!isStepControl ·)).map shown)
  controls : Reorders ((rest.filter isStepControl).map content) ((before ++ after).map content)

/-- A step that is written as a shorthand under a keyword, and the same step written as a task. -/
inductive Shorthand.TwoForms (s : Shorthand) (keyword : String) : Token → Token → Prop
  | intro {t t' : Token} {key : Key} {primary : Token} {rest : List Entry} {task inputs : Entry}
      {before given after : List Entry} (hkey : key.name = keyword)
      (ht : t.entries? = some ((key, primary) :: rest))
      (ht' : t'.entries? = some (task :: (before ++ inputs :: after)))
      (h : s.Heads rest) (h' : s.InFull primary rest task inputs before given after) :
      TwoForms s keyword t t'

namespace Shorthand

variable {s : Shorthand} {keyword : String} {primary : Token} {rest : List Entry}
  {task inputs : Entry} {before given after : List Entry}

/-- The inputs that a shorthand gives itself have different names. -/
theorem own_distinct (hs : shorthand? keyword = some s) (text : String) :
    ((s.input, text) :: s.given).Pairwise fun p q => Text.fold p.1 ≠ Text.fold q.1 := by
  have hnames : (((s.input, text) :: s.given).map Prod.fst).Pairwise fun n m =>
      Text.fold n ≠ Text.fold m := by
    change (s.input :: s.given.map Prod.fst).Pairwise _
    unfold shorthand? at hs
    split at hs <;> cases hs <;> decide
  have hdistinct := List.pairwise_map.mp hnames
  exact hdistinct

/-- **The inputs are the same**, be they other keys of a shorthand or under one key. -/
theorem InFull.inputs_eq (hs : shorthand? keyword = some s) (h : s.Heads rest)
    (h' : s.InFull primary rest task inputs before given after) :
    Task.Inputs.ofList ((rest.filter (!isStepControl ·)).map inputText ++
        (s.input, primary.display?.getD "") :: s.given) = .ofList (given.map inputText) := by
  have hown : (s.own primary).map (fun x => (x.1, x.2.getD "")) =
      (s.input, primary.display?.getD "") :: s.given := by
    rw [own, List.map_cons, List.map_map]
    exact congrArg _ (List.map_id _)
  have hperm := h'.given.map fun x => (x.1, x.2.getD "")
  rw [List.map_append, hown, List.map_map, List.map_map] at hperm
  refine Task.Inputs.ofList_perm ?_ (List.perm_append_comm.trans hperm.symm)
  refine List.pairwise_append.mpr ⟨?_, ?_, ?_⟩
  · rw [List.pairwise_map]
    exact h.distinct.imp fun hab => of_decide_eq_false hab
  · exact own_distinct hs _
  · intro p hp q hq heq
    obtain ⟨e, he, rfl⟩ := List.mem_map.mp hp
    have hname : q.1 ∈ s.input :: s.given.map Prod.fst := List.mem_map_of_mem (f := Prod.fst) hq
    exact of_decide_eq_false (h.others q.1 hname e he) heq.symm

/-- A shorthand and its task have a text for all inputs, or neither has. -/
theorem InFull.forall_given_iff (h' : s.InFull primary rest task inputs before given after) :
    (∀ e ∈ given, e.2.display?.isSome) ↔ primary.display?.isSome ∧
      ∀ e ∈ rest.filter (!isStepControl ·), e.2.display?.isSome := by
  have hshown (es : List Entry) : (∀ e ∈ es, e.2.display?.isSome) ↔
      ∀ x ∈ es.map shown, x.2.isSome := by
    rw [List.forall_mem_map]
    rfl
  have hown : (∀ x ∈ s.own primary, x.2.isSome) ↔ primary.display?.isSome := by
    rw [own, List.forall_mem_cons, List.forall_mem_map]
    exact and_iff_left fun _ _ => rfl
  rw [hshown, hshown, ← hown, ← List.forall_mem_append]
  exact forall_congr' fun x => by rw [h'.given.mem_iff]

/-- All entries of the task but the inputs are control properties. -/
theorem InFull.isStepControl (h' : s.InFull primary rest task inputs before given after) :
    ∀ e ∈ before ++ after, isStepControl e = true := by
  intro e he
  obtain ⟨own, hown, heq⟩ := List.mem_map.mp (h'.controls.perm.mem_iff.mpr (List.mem_map_of_mem he))
  have hname : own.1.name = e.1.name := congrArg Prod.fst heq
  rw [Pipeline.isStepControl, ← hname]
  exact (List.mem_filter.mp hown).2

/-- What two control properties with different keys say may be put in either order. -/
theorem put_put_comm (x y : String × Token) (c d : StepControl) (hc : SaysStepControl x c)
    (hd : SaysStepControl y d) (hne : x.1 ≠ y.1) (t : Step) : d.put (c.put t) = c.put (d.put t) := by
  refine StepControl.put_comm fun hkey => hne ?_
  rw [← hc.key_eq, ← hd.key_eq, hkey]

/-- **A shorthand is read as its task.** -/
theorem InFull.ofEntries?_eq_ok_iff {c : Context} {key : Key} (hs : shorthand? key.name = some s)
    (h : s.Heads rest) (h' : s.InFull primary rest task inputs before given after) {a : Step} :
    Step.ofEntries? c key primary rest = .ok a ↔
      Step.ofEntries? c task.1 task.2 (before ++ inputs :: after) = .ok a := by
  rw [ofEntries?_shorthand_iff hs,
    ofEntries?_task_iff h'.taskKey h'.reference h'.inputsKey h'.mapping h'.isStepControl,
    h'.forall_given_iff, h'.inputs_eq hs h, and_assoc]
  refine and_congr_right fun _ => and_congr_right fun _ => exists_congr fun reference => ?_
  have hstep {cs cs' : List StepControl} (i : Task.Inputs)
      (hput : ∀ t : Step, cs.foldl StepControl.put t = cs'.foldl StepControl.put t) :
      stepOf cs reference i = stepOf cs' reference i := by
    rw [stepOf, hput, stepOf]
  constructor
  · rintro ⟨cs, hreference, hcs, rfl⟩
    obtain ⟨cs', hcs', hput⟩ := h'.controls.forall₂ put_put_comm hcs
    exact ⟨cs', hreference, hcs', hstep _ hput⟩
  · rintro ⟨cs, hreference, hcs, rfl⟩
    obtain ⟨cs', hcs', hput⟩ := h'.controls.symm.forall₂ put_put_comm hcs
    exact ⟨cs', hreference, hcs', hstep _ hput⟩

/-- **Shorthands are tasks**: both forms of a step stand for the same steps. -/
theorem TwoForms.stepsOfItem_iff (hs : shorthand? keyword = some s) {t t' : Token}
    (h : s.TwoForms keyword t t') {refs : References} {c : Context} {j j' : Journal}
    {steps : List Step} :
    (stepsOfItem refs c t).run.run j = some (.ok steps, j') ↔
      (stepsOfItem refs c t').run.run j = some (.ok steps, j') := by
  cases h with
  | @intro key primary rest task inputs before given after hkey ht ht' h h' =>
      subst hkey
      have hkey : key.name ≠ "template" := by
        intro heq
        rw [heq] at hs
        cases hs
      have htask : task.1.name ≠ "template" := by
        rw [h'.taskKey]
        decide
      rw [run_stepsOfItem_eq_ok_iff ht hkey, run_stepsOfItem_eq_ok_iff ht' htask]
      simp only [h'.ofEntries?_eq_ok_iff hs h]

end Shorthand
end PipelineExpansion.Pipeline
