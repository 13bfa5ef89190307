import PipelineExpansion.Proofs.BuildProcess.RoundTrip
import PipelineExpansion.Proofs.BuildProcess.TaskControl
import PipelineExpansion.Proofs.Reordering

/-!
# Shorthands are tasks

A shorthand for a task with a script is read as the task in full would be: with the same control
properties, and with the script and the extra keys of the shorthand as its inputs.

The two readers go through the entries in different ways. A shorthand puts an input in its place as it
comes to it, between control properties; a task takes all inputs from one mapping. Both come to what the
control properties say and what the inputs are. The inputs are the same because their names are
different, which makes their order of no importance.

## Main results

* `Shorthand.readsAs_iff`, `Shorthand.readsAs_task_iff`: what each of the two forms is read as.
* `Shorthand.TwoForms.readAlike`: both forms of a step are read as the same.
-/

namespace PipelineExpansion.BuildProcess

open Yaml

/-! ### Shorthands -/

/-- The input that an entry of a shorthand gives, in the spelling of the shorthand. -/
def Shorthand.extra (s : Shorthand) (x : Content) : String × String :=
  ((s.extras.find? (Text.sameName · x.texts.1)).getD "", x.texts.2)

/-- An entry has a key that a shorthand has a place for, in whatever case of letters. -/
def Shorthand.HasExtra (s : Shorthand) (x : Content) : Prop :=
  ∃ name, textOf x.1 = some name ∧ ∃ extra ∈ s.extras, Text.sameName extra name = true

theorem Shorthand.HasExtra.find {s : Shorthand} {x : Content} (h : s.HasExtra x) :
    s.extras.find? (Text.sameName · x.texts.1) = some (s.extra x).1 := by
  obtain ⟨name, hname, extra, hextra, hsame⟩ := h
  have htext : x.texts.1 = name := by rw [Content.texts, hname]; rfl
  have hsome : (s.extras.find? (Text.sameName · x.texts.1)).isSome :=
    List.find?_isSome.mpr ⟨extra, hextra, htext ▸ hsame⟩
  obtain ⟨found, hfind⟩ := Option.isSome_iff_exists.mp hsome
  rw [Shorthand.extra, hfind, Option.getD_some]

theorem Shorthand.readsAs_extra_iff {s : Shorthand} {e : Pair} (he : e.IsPair)
    (h : s.HasExtra e.content) {t u : TaskStep} :
    ReadsAs (Reader.scalar >>= s.property t) e.events u ↔ (textOf e.content.2).isSome ∧
      t.withInputs (t.inputs.insert (s.extra e.content).1 (s.extra e.content).2) = u := by
  have hfind := h.find
  obtain ⟨name, hname, -⟩ := h
  have htext : e.content.texts.1 = name := by rw [Content.texts, hname]; rfl
  obtain ⟨plain, span, hkey⟩ := exists_scalar_of_textOf hname
  rw [Pair.events, hkey, List.singleton_append, readsAs_scalar_bind_iff, Shorthand.property, ← htext,
    hfind]
  refine (readsAs_text_iff he.value
    (f := fun value => t.withInputs (t.inputs.insert (s.extra e.content).1 value))).trans ?_
  have hvalue {value : String} (hsome : textOf (contents e.value) = some value) :
      (s.extra e.content).2 = value := by
    rw [Shorthand.extra, Content.texts, Pair.content, hsome]
    rfl
  constructor
  · rintro ⟨value, hsome, rfl⟩
    exact ⟨Option.isSome_iff_exists.mpr ⟨value, hsome⟩, by rw [hvalue hsome]⟩
  · rintro ⟨hsome, rfl⟩
    obtain ⟨value, hsome⟩ := Option.isSome_iff_exists.mp hsome
    exact ⟨value, hsome, by rw [hvalue hsome]⟩

/-- The texts of the inputs that a shorthand gives itself. -/
def Shorthand.given (s : Shorthand) (script : String) : List (String × String) :=
  (if s.inline then [("targetType", "inline")] else []) ++ [("script", script)]

/-- A task with inputs alone. -/
def Shorthand.bare (s : Shorthand) (i : Task.Inputs) : TaskStep :=
  { task := s.task, version := s.version, inputs := i }

theorem Shorthand.toTask_eq (s : Shorthand) (script : String) :
    s.toTask script = s.bare (.ofList (s.given script)) := by
  rw [toTask, bare, given]
  cases s.inline <;> rfl

/-- What a shorthand comes to, with control properties and with inputs besides its own. -/
theorem Shorthand.foldl_put_toTask (s : Shorthand) (script : String) (cs : List TaskControl)
    (more : List (String × String)) :
    (cs.foldl TaskControl.put (s.toTask script)).withInputs
        ((s.toTask script).inputs.insertAll more) =
      (cs.foldl TaskControl.put (s.bare ∅)).withInputs (.ofList (s.given script ++ more)) := by
  have hbare (i : Task.Inputs) : s.bare i = (s.bare ∅).withInputs i := rfl
  rw [Shorthand.toTask_eq, hbare, TaskControl.foldl_put_withInputs, TaskStep.withInputs_withInputs,
    TaskStep.inputs_withInputs, Task.Inputs.ofList, Task.Inputs.ofList, Task.Inputs.insertAll_append]

/-- **What a shorthand is read as.** -/
theorem Shorthand.readsAs_iff {s : Shorthand} (hs : s ∈ shorthands) {start stop : Span}
    {first : Pair} {others : List Pair} (hpairs : ∀ e ∈ first :: others, e.IsPair)
    (hfirst : textOf first.content.1 = some s.keyword)
    (hextras : ∀ x ∈ others.map Pair.content, isControl x = false → s.HasExtra x) {a : SimpleStep} :
    ReadsAs readSimpleStep (mappingEvents start stop (first :: others)) a ↔
      (textOf first.content.2).isSome ∧
      (∀ x ∈ inputsIn others, (textOf x.2).isSome) ∧
        ∃ cs, List.Forall₂ SaysControl (controlsIn others) cs ∧
          .task ((cs.foldl TaskControl.put (s.bare ∅)).withInputs
            (.ofList (s.given first.content.texts.2 ++
              (inputsIn others).map s.extra))) = a := by
  obtain ⟨key, value⟩ := first
  obtain ⟨hpair, hothers⟩ := List.forall_mem_cons.mp hpairs
  obtain ⟨plain, span, rfl⟩ := exists_scalar_of_textOf hfirst
  have hstep : ∀ t, ∀ e ∈ others, StaysIn (Reader.scalar >>= s.property t) e.events :=
    fun t e he => (hothers e he).staysIn readsNode_scalar (s.readsNode_property t)
  have hcloses : ∀ t, Closes .mappingEnd
      (Reader.untilEnd .mappingEnd t fun t => Reader.scalar >>= s.property t) :=
    closes_untilEnd .mapping fun t => enters_key fun key => (s.readsNode_property t key).passes
  have hinputs : ∀ e ∈ others, isControl e.content = false → ∀ t u,
      ReadsAs (Reader.scalar >>= s.property t) e.events u ↔ (textOf e.content.2).isSome ∧
        t.withInputs (t.inputs.insert (s.extra e.content).1 (s.extra e.content).2) = u :=
    fun e he hfalse t u =>
      s.readsAs_extra_iff (hothers e he) (hextras _ (List.mem_map_of_mem he) hfalse)
  have hread : s.read = Reader.scalar >>= fun script =>
      Reader.untilEnd .mappingEnd (s.toTask script.text) fun t => Reader.scalar >>= s.property t := rfl
  rw [readsAs_readSimpleStep_iff (simpleStep?_shorthand hs _ rfl), hread, bind_assoc,
    (readsNode_scalar.node hpair.value).readsAs_bind_iff]
  simp only [((hcloses _).staysIn hothers).readsAs_map_iff, readsAs_untilEnd_iff hothers hstep,
    steps_iff (s.property_eq_control hs) hothers hinputs, s.foldl_put_toTask]
  have hscalar : ∀ script : Scalar, ReadsAs Reader.scalar value script →
      textOf (contents value) = some script.text := by
    intro script hreads
    have hnode : IsNode value := hpair.value
    rw [(readsAs_scalar_iff hnode).mp hreads]
    rfl
  have htexts {script : String} (h : textOf (contents value) = some script) :
      (Pair.content ⟨[⟨.scalar s.keyword plain, span⟩], value⟩).texts.2 = script := by
    rw [Content.texts, Pair.content, h]
    rfl
  constructor
  · rintro ⟨script, hscript, t, ⟨hvalues, cs, hcs, rfl⟩, rfl⟩
    have htext := hscalar script hscript
    exact ⟨Option.isSome_iff_exists.mpr ⟨_, htext⟩, hvalues, cs, hcs, by rw [htexts htext]⟩
  · rintro ⟨hsome, hvalues, cs, hcs, rfl⟩
    obtain ⟨script, htext⟩ := Option.isSome_iff_exists.mp hsome
    obtain ⟨plain', span', hvalue⟩ := exists_scalar_of_textOf htext
    refine ⟨⟨script, plain', span'⟩, (readsAs_scalar_iff hpair.value).mpr hvalue, _,
      ⟨hvalues, cs, hcs, rfl⟩, ?_⟩
    rw [htexts htext]

/-! ### Tasks in full -/

section Task

variable {s : Shorthand} {start stop start' stop' : Span} {task : Pair} {inputs : List Spanned}
  {before given after : List Pair}

/-- An entry for inputs is read as these. -/
theorem readsAs_inputs_iff (hgiven : ∀ e ∈ given, e.IsPair)
    (hnames : ∀ x ∈ given.map Pair.content, (textOf x.1).isSome)
    (hdistinct : (given.map Pair.content).Pairwise fun x y =>
      Text.sameName x.texts.1 y.texts.1 = false)
    (hinputs : textOf (contents inputs) = some "inputs") (t u : TaskStep) :
    ReadsAs (Reader.scalar >>= t.property)
        (Pair.events ⟨inputs, mappingEvents start stop given⟩) u ↔
      ∃ i, ((∀ x ∈ given.map Pair.content, (textOf x.2).isSome) ∧
        .ofList (Dictionary.ofEntries ((given.map Pair.content).map Content.texts)) = i) ∧
          t.withInputs i = u := by
  obtain ⟨plain, span, rfl⟩ := exists_scalar_of_textOf hinputs
  rw [List.forall_mem_map] at hnames
  have hapart : given.Pairwise fun a b =>
      NameOrder.ignoreCase.same a.content.texts.1 b.content.texts.1 = false :=
    List.pairwise_map.mp hdistinct
  rw [Pair.events, List.singleton_append, readsAs_scalar_bind_iff, TaskStep.property, if_pos rfl,
    ((readsNode_textMap _).node (isNode_mappingEvents hgiven)).readsAs_map_iff, List.forall_mem_map,
    List.map_map]
  simp only [readsAs_textMap_iff hgiven hnames hapart]
  constructor
  · rintro ⟨_, ⟨hvalues, rfl⟩, rfl⟩
    exact ⟨_, ⟨hvalues, rfl⟩, rfl⟩
  · rintro ⟨_, ⟨hvalues, rfl⟩, rfl⟩
    exact ⟨_, ⟨hvalues, rfl⟩, rfl⟩

theorem isPair_entries (hothers : ∀ e ∈ before ++ after, e.IsPair) (hgiven : ∀ e ∈ given, e.IsPair)
    (hinputs : textOf (contents inputs) = some "inputs") :
    ∀ e ∈ before ++ ⟨inputs, mappingEvents start stop given⟩ :: after, e.IsPair := by
  obtain ⟨hbefore, hafter⟩ := List.forall_mem_append.mp hothers
  obtain ⟨plain, span, rfl⟩ := exists_scalar_of_textOf hinputs
  have hentry : Pair.IsPair ⟨[⟨.scalar "inputs" plain, span⟩], mappingEvents start stop given⟩ :=
    ⟨.scalar _ _ _, isNode_mappingEvents hgiven⟩
  exact List.forall_mem_append.mpr ⟨hbefore, List.forall_mem_cons.mpr ⟨hentry, hafter⟩⟩

/-- A task is read as the entries behind its reference say. -/
theorem readsAs_readTask_bind_iff (hs : s ∈ shorthands) {plain : Bool} {span : Span}
    {more : List Spanned} {f : TaskStep → Reader SimpleStep} {a : SimpleStep} :
    ReadsAs (readTask >>= f) (⟨.scalar (s.task ++ "@" ++ s.version) plain, span⟩ :: more) a ↔
      ReadsAs (Reader.untilEnd .mappingEnd (s.bare ∅) (fun t => Reader.scalar >>= t.property) >>= f)
        more a := by
  rw [readTask, bind_assoc, readsAs_scalar_bind_iff, reference_of_mem s hs]
  rfl

/-- **What the task of a shorthand is read as.** -/
theorem Shorthand.readsAs_task_iff (hs : s ∈ shorthands)
    (hpairs : ∀ e ∈ task :: (before ++ after), e.IsPair) (hgiven : ∀ e ∈ given, e.IsPair)
    (htask : task.content = ([.scalar "task" true], [.scalar (s.task ++ "@" ++ s.version) true]))
    (hinputs : textOf (contents inputs) = some "inputs")
    (hcontrol : ∀ x ∈ (before ++ after).map Pair.content, isControl x = true)
    (hnames : ∀ x ∈ given.map Pair.content, (textOf x.1).isSome)
    (hdistinct : (given.map Pair.content).Pairwise fun x y =>
      Text.sameName x.texts.1 y.texts.1 = false) {a : SimpleStep} :
    ReadsAs readSimpleStep (mappingEvents start stop
        (task :: (before ++ ⟨inputs, mappingEvents start' stop' given⟩ :: after))) a ↔
      (∀ x ∈ given.map Pair.content, (textOf x.2).isSome) ∧
        ∃ cs, List.Forall₂ SaysControl ((before ++ after).map Pair.content) cs ∧
          .task ((cs.foldl TaskControl.put (s.bare ∅)).withInputs
            (.ofList (Dictionary.ofEntries ((given.map Pair.content).map Content.texts)))) = a := by
  obtain ⟨key, value⟩ := task
  obtain ⟨hkey, hvalue⟩ := Prod.mk.inj htask
  obtain ⟨-, hothers⟩ := List.forall_mem_cons.mp hpairs
  have hentries : ∀ e ∈ before ++ ⟨inputs, mappingEvents start' stop' given⟩ :: after, e.IsPair :=
    isPair_entries hothers hgiven hinputs
  obtain ⟨plain, span, rfl⟩ := exists_scalar_of_textOf (congrArg textOf hkey)
  obtain ⟨plain', span', rfl⟩ := exists_scalar_of_textOf (congrArg textOf hvalue)
  have hstep : ∀ t : TaskStep, ∀ e ∈ before ++ ⟨inputs, mappingEvents start' stop' given⟩ :: after,
      StaysIn (Reader.scalar >>= t.property) e.events :=
    fun t e he => (hentries e he).staysIn readsNode_scalar t.readsNode_property
  have hcloses : Closes .mappingEnd
      (Reader.untilEnd .mappingEnd (s.bare ∅) fun t => Reader.scalar >>= t.property) :=
    closes_untilEnd .mapping (fun t => enters_key fun key => (t.readsNode_property key).passes) _
  rw [readsAs_readSimpleStep_iff rfl, List.singleton_append, readsAs_readTask_bind_iff hs,
    (hcloses.staysIn hentries).readsAs_map_iff]
  simp only [readsAs_untilEnd_iff hentries hstep,
    steps_inputs_iff TaskStep.property_eq_control hothers hcontrol
      (readsAs_inputs_iff hgiven hnames hdistinct hinputs)]
  constructor
  · rintro ⟨_, ⟨_, ⟨hvalues, rfl⟩, cs, hcs, rfl⟩, rfl⟩
    exact ⟨hvalues, cs, hcs, rfl⟩
  · rintro ⟨hvalues, cs, hcs, rfl⟩
    exact ⟨_, ⟨_, ⟨hvalues, rfl⟩, cs, hcs, rfl⟩, rfl⟩

end Task

/-! ### Both forms -/

/-- What is read of one node is the same as what is read of another. -/
def ReadAlike {α : Type} (Same : α → α → Prop) (r : Reader α) (node node' : List Spanned) : Prop :=
  (∀ a, ReadsAs r node a → ∃ b, ReadsAs r node' b ∧ Same a b) ∧
    ∀ b, ReadsAs r node' b → ∃ a, ReadsAs r node a ∧ Same a b

/-- Simple steps that are read as the same are so where groups may stand. -/
theorem ReadAlike.readStep {node node' : List Spanned}
    (hnode : ∀ a, ReadsAs readStep node a ↔ ∃ b, ReadsAs readSimpleStep node b ∧ .simple b = a)
    (hnode' : ∀ a, ReadsAs readStep node' a ↔ ∃ b, ReadsAs readSimpleStep node' b ∧ .simple b = a)
    (h : ReadAlike SimpleStep.Same readSimpleStep node node') :
    ReadAlike Step.Same readStep node node' := by
  simp only [ReadAlike, hnode, hnode']
  constructor
  · rintro _ ⟨a, ha, rfl⟩
    obtain ⟨b, hb, hsame⟩ := h.1 a ha
    exact ⟨_, ⟨b, hb, rfl⟩, hsame⟩
  · rintro _ ⟨b, hb, rfl⟩
    obtain ⟨a, ha, hsame⟩ := h.2 b hb
    exact ⟨_, ⟨a, ha, rfl⟩, hsame⟩

/-- The inputs that a shorthand gives itself, by their contents. -/
def Shorthand.own (s : Shorthand) (script : List Event) : List Content :=
  (if s.inline then [([.scalar "targetType" true], [.scalar "inline" true])] else [])
    ++ [([.scalar "script" true], script)]

/-- The entries of a step are those of a shorthand: the script under its keyword first, and then control
properties and extra keys in any order. No two extra keys have one name, in whatever case of letters. -/
structure Shorthand.Heads (s : Shorthand) (first : Pair) (others : List Pair) : Prop where
  pairs : ∀ e ∈ first :: others, e.IsPair
  keyword : textOf first.content.1 = some s.keyword
  extras : ∀ x ∈ others.map Pair.content, isControl x = false → s.HasExtra x
  distinct : (inputsIn others).Pairwise fun x y =>
    Text.sameName x.texts.1 y.texts.1 = false

/-- The entries of a step are those of the task that a shorthand stands for: a reference to it first, and
then the same control properties in any order and, somewhere among them, the inputs. -/
structure Shorthand.InFull (s : Shorthand) (first : Pair) (others : List Pair) (task : Pair)
    (inputs : List Spanned) (before given after : List Pair) : Prop where
  pairs : ∀ e ∈ task :: (before ++ after), e.IsPair
  givenPairs : ∀ e ∈ given, e.IsPair
  reference : task.content = ([.scalar "task" true], [.scalar (s.task ++ "@" ++ s.version) true])
  inputs : textOf (contents inputs) = some "inputs"
  given : (given.map Pair.content).Perm
    (s.own first.content.2 ++ inputsIn others)
  controls : Reorders (controlsIn others)
    ((before ++ after).map Pair.content)

namespace Shorthand

variable {s : Shorthand} {first : Pair} {others : List Pair}

theorem texts_own (s : Shorthand) (x : Content) :
    (s.own x.2).map Content.texts = s.given x.texts.2 := by
  rw [own, given]
  cases s.inline <;> rfl

/-- No input of its own is an extra key of a shorthand, and none is there twice. -/
theorem given_distinct : ∀ s ∈ shorthands, ∀ script,
    ((s.given script).Pairwise fun p q => Text.sameName p.1 q.1 = false) ∧
      ∀ p ∈ s.given script, ∀ extra ∈ s.extras, Text.sameName p.1 extra = false := by
  have hnames : ∀ s ∈ shorthands,
      (((s.given "").map Prod.fst).Pairwise fun n m => Text.sameName n m = false) ∧
        ∀ n ∈ (s.given "").map Prod.fst, ∀ extra ∈ s.extras, Text.sameName n extra = false := by
    decide
  intro s hs script
  have hsame : (s.given script).map Prod.fst = (s.given "").map Prod.fst := by
    rw [given, given]
    cases s.inline <;> rfl
  obtain ⟨hdistinct, hextras⟩ := hnames s hs
  rw [← hsame] at hdistinct hextras
  exact ⟨List.pairwise_map.mp hdistinct, List.forall_mem_map.mp hextras⟩

/-- An extra key is put in the spelling of the shorthand. -/
theorem foldName_extra {x : Content} (h : s.HasExtra x) :
    Task.Inputs.foldName (s.extra x) = Task.Inputs.foldName x.texts := by
  have hsame := List.find?_some h.find
  exact Prod.ext (Text.sameName_iff.mp hsame) rfl

/-- The inputs of a shorthand have names, no two of them the same. -/
theorem Heads.names (h : s.Heads first others) (hs : s ∈ shorthands) :
    (∀ x ∈ s.own first.content.2 ++ inputsIn others,
      (textOf x.1).isSome) ∧
    (s.own first.content.2 ++ inputsIn others).Pairwise fun x y =>
      Text.sameName x.texts.1 y.texts.1 = false := by
  obtain ⟨hdistinct, hextras⟩ := given_distinct s hs first.content.texts.2
  rw [← texts_own] at hdistinct hextras
  have hleft : ∀ x ∈ inputsIn others, s.HasExtra x := by
    intro x hx
    obtain ⟨hmem, hcontrol⟩ := List.mem_filter.mp hx
    exact h.extras x hmem (by simpa using hcontrol)
  refine ⟨List.forall_mem_append.mpr ⟨fun x hx => ?_, fun x hx => ?_⟩,
    List.pairwise_append.mpr ⟨List.pairwise_map.mp hdistinct, h.distinct, fun x hx y hy => ?_⟩⟩
  · rw [own] at hx
    rcases List.mem_append.mp hx with hx | hx
    · split at hx
      · rw [List.mem_singleton.mp hx]
        rfl
      · cases hx
    · rw [List.mem_singleton.mp hx]
      rfl
  · obtain ⟨name, hname, -⟩ := hleft x hx
    exact Option.isSome_iff_exists.mpr ⟨name, hname⟩
  · have hfind := (hleft y hy).find
    have hsame := List.find?_some hfind
    have hapart := hextras _ (List.mem_map_of_mem hx) _ (List.mem_of_find?_eq_some hfind)
    rw [Text.sameName] at hsame hapart ⊢
    rw [← of_decide_eq_true hsame]
    exact hapart

/-- **The inputs are the same**, be they put one by one or given at once. -/
theorem Heads.inputs (h : s.Heads first others) (hs : s ∈ shorthands) {given : List Content}
    (hgiven : given.Perm (s.own first.content.2 ++ inputsIn others)) :
    (Task.Inputs.ofList (s.given first.content.texts.2 ++
        (inputsIn others).map s.extra) ==
      .ofList (Dictionary.ofEntries (given.map Content.texts))) = true := by
  obtain ⟨-, hdistinct⟩ := h.names hs
  have hfold : ((s.given first.content.texts.2 ++
        (inputsIn others).map s.extra).map Task.Inputs.foldName) =
      ((s.own first.content.2 ++ inputsIn others).map
        Content.texts).map Task.Inputs.foldName := by
    rw [List.map_append, List.map_append, List.map_append, texts_own, List.map_map, List.map_map]
    refine congrArg _ (List.map_congr_left fun x hx => ?_)
    obtain ⟨hmem, hcontrol⟩ := List.mem_filter.mp hx
    exact foldName_extra (h.extras x hmem (by simpa using hcontrol))
  have hnames : ((s.own first.content.2 ++ inputsIn others).map
      Content.texts).Pairwise fun p q => Text.fold p.1 ≠ Text.fold q.1 :=
    List.pairwise_map.mpr (hdistinct.imp fun hxy => of_decide_eq_false hxy)
  have hentries : (Dictionary.ofEntries (given.map Content.texts)).Perm
      ((s.own first.content.2 ++ inputsIn others).map
        Content.texts) := by
    have htexts := hgiven.map Content.texts
    refine (Dictionary.ofEntries_perm ?_).trans htexts
    exact (hnames.perm htexts.symm Ne.symm).imp fun hpq heq => hpq (congrArg Text.fold heq)
  refine Task.Inputs.beq_ofList_of_perm ?_ (hfold ▸ (hentries.map _).symm)
  exact Task.Inputs.pairwise_map_foldName.mp
    (hfold ▸ Task.Inputs.pairwise_map_foldName.mpr hnames)

/-- A shorthand and its task have a text for all inputs, or neither has. -/
theorem forall_given_iff {given left : List Content}
    (hgiven : given.Perm (s.own first.content.2 ++ left)) :
    (∀ x ∈ given, (textOf x.2).isSome) ↔
      (textOf first.content.2).isSome ∧ ∀ x ∈ left, (textOf x.2).isSome := by
  have hown : (∀ x ∈ s.own first.content.2, (textOf x.2).isSome) ↔
      (textOf first.content.2).isSome := by
    rw [own, List.forall_mem_append, List.forall_mem_singleton, and_iff_right]
    split
    · exact List.forall_mem_singleton.mpr rfl
    · exact List.forall_mem_nil _
  rw [← hown, ← List.forall_mem_append]
  exact forall_congr' fun x => by rw [hgiven.mem_iff]

variable {task : Pair} {inputs : List Spanned} {before given after : List Pair}
  {start stop start' stop' istart istop : Span}

/-- What two control properties with different keys say may be put in either order. -/
theorem put_put_comm (x y : Content) (c d : TaskControl) (hc : SaysControl x c) (hd : SaysControl y d)
    (hne : x.1 ≠ y.1) (t : TaskStep) : d.put (c.put t) = c.put (d.put t) := by
  refine TaskControl.put_comm fun hkey => hne ?_
  rw [hc.key_eq, hd.key_eq, hkey]

/-- **A shorthand is read as its task**, where groups may not stand. -/
theorem readAlike_readSimpleStep (hs : s ∈ shorthands) (h : s.Heads first others)
    (h' : s.InFull first others task inputs before given after) :
    ReadAlike SimpleStep.Same readSimpleStep (mappingEvents start stop (first :: others))
      (mappingEvents start' stop'
        (task :: (before ++ ⟨inputs, mappingEvents istart istop given⟩ :: after))) := by
  have hcontrol : ∀ x ∈ (before ++ after).map Pair.content, isControl x = true := fun x hx =>
    (List.mem_filter.mp (h'.controls.perm.mem_iff.mpr hx)).2
  obtain ⟨hnames, hdistinct⟩ := h.names hs
  have hnames' : ∀ x ∈ given.map Pair.content, (textOf x.1).isSome := fun x hx =>
    hnames x (h'.given.mem_iff.mp hx)
  have hdistinct' := hdistinct.perm h'.given.symm fun {x y} hxy =>
    (NameOrder.same_comm .ignoreCase y.texts.1 x.texts.1).trans hxy
  have hsame {cs cs' : List TaskControl}
      (hput : ∀ t : TaskStep, cs.foldl TaskControl.put t = cs'.foldl TaskControl.put t) :
      TaskStep.Same
        ((cs.foldl TaskControl.put (s.bare ∅)).withInputs (.ofList (s.given first.content.texts.2 ++
          (inputsIn others).map s.extra)))
        ((cs'.foldl TaskControl.put (s.bare ∅)).withInputs
          (.ofList (Dictionary.ofEntries ((given.map Pair.content).map Content.texts)))) := by
    refine ⟨?_, h.inputs hs h'.given⟩
    rw [hput]
    rfl
  simp only [ReadAlike, readsAs_iff hs h.pairs h.keyword h.extras, forall_given_iff h'.given,
    readsAs_task_iff hs h'.pairs h'.givenPairs h'.reference h'.inputs hcontrol hnames' hdistinct']
  constructor
  · rintro _ ⟨hscript, hvalues, cs, hcs, rfl⟩
    obtain ⟨cs', hcs', hput⟩ := h'.controls.forall₂ put_put_comm hcs
    exact ⟨_, ⟨⟨hscript, hvalues⟩, cs', hcs', rfl⟩, hsame fun t => (hput t).symm⟩
  · rintro _ ⟨⟨hscript, hvalues⟩, cs, hcs, rfl⟩
    obtain ⟨cs', hcs', hput⟩ := h'.controls.symm.forall₂ put_put_comm hcs
    exact ⟨_, ⟨hscript, hvalues, cs', hcs', rfl⟩, hsame hput⟩

/-- A shorthand is read as its task, where groups may stand too. -/
theorem readAlike_readStep (hs : s ∈ shorthands) (h : s.Heads first others)
    (h' : s.InFull first others task inputs before given after) :
    ReadAlike Step.Same readStep (mappingEvents start stop (first :: others))
      (mappingEvents start' stop'
        (task :: (before ++ ⟨inputs, mappingEvents istart istop given⟩ :: after))) := by
  refine ReadAlike.readStep (fun a => ?_) (fun a => ?_) (readAlike_readSimpleStep hs h h')
  · obtain ⟨hpair, hothers⟩ := List.forall_mem_cons.mp h.pairs
    obtain ⟨key, value⟩ := first
    obtain ⟨plain, span, rfl⟩ := exists_scalar_of_textOf h.keyword
    exact readsAs_readStep_iff (simpleStep?_shorthand hs _ rfl) hpair.value hothers
  · obtain ⟨hpair, hothers⟩ := List.forall_mem_cons.mp h'.pairs
    obtain ⟨key, value⟩ := task
    obtain ⟨plain, span, rfl⟩ :=
      exists_scalar_of_textOf (congrArg textOf (Prod.mk.inj h'.reference).1)
    exact readsAs_readStep_iff rfl hpair.value (isPair_entries hothers h'.givenPairs h'.inputs)

/-- A node is a step written as a shorthand, and another is the same step written as a task. -/
inductive TwoForms (s : Shorthand) : List Spanned → List Spanned → Prop
  | intro {start stop start' stop' istart istop : Span} {first task : Pair}
      {inputs : List Spanned} {others before given after : List Pair} (h : s.Heads first others)
      (h' : s.InFull first others task inputs before given after) :
      TwoForms s (mappingEvents start stop (first :: others))
        (mappingEvents start' stop'
          (task :: (before ++ ⟨inputs, mappingEvents istart istop given⟩ :: after)))

/-- **Shorthands are tasks**: the two forms of a step are read as the same, wherever steps may stand. -/
theorem TwoForms.readAlike (hs : s ∈ shorthands) {node node' : List Spanned}
    (h : s.TwoForms node node') :
    ReadAlike SimpleStep.Same readSimpleStep node node' ∧ ReadAlike Step.Same readStep node node' := by
  obtain ⟨h, h'⟩ := h
  exact ⟨readAlike_readSimpleStep hs h h', readAlike_readStep hs h h'⟩

end Shorthand

end PipelineExpansion.BuildProcess
