import PipelineExpansion.Proofs.BuildProcess.Document
import PipelineExpansion.Proofs.BuildProcess.Node
import PipelineExpansion.Proofs.Yaml.Pair

/-!
# Entries that exclude each other

A process is a template, a list of phases, or one phase at the root, and an entry is refused beside
an entry of something else. Whether there is one is asked of what has been read so far. An entry
that leaves nothing behind is not seen: an empty `dependsOn`, also one that takes the place of
another, and a `server` that is none. So the order of the entries matters, but for these alone.

What an entry says is read off its value, whatever the process has already (`readSetting`); the
process then takes it, or refuses it (`put?`). A process that is read and is no phase at the root is
made in three steps: entries after which it waits, with nothing of a phase but what it depends on
(`Waiting`); the template or the phases that it is made of (`Made`); and entries that are of neither.

## Main results

* `property_eq`: an entry is read as what it says, unless another excludes it.
* `readDocument_read_iff`: what a process is read as, entry after entry.
* `exists_run_iff_apart`: which settings make a process of something else than one phase.
* `readDocument_read_of_excludes`: which processes with keys that exclude each other are read.
-/

namespace PipelineExpansion.BuildProcess

open Yaml

/-! ### What an entry says -/

/-- What an entry of a process says. -/
inductive Setting where
  | name (text : String)
  | resources (rs : List Resource)
  | template (r : PhasesReference)
  | phases (entries : List PhaseEntry)
  | vars (vs : List Variable)
  | steps (ss : List Step)
  | dependsOn (names : List String)
  | condition (text : String)
  | continueOnError (text : String)
  | enableAccessToken (text : String)
  | queue (t : QueueTarget)
  | deployment (t : DeploymentTarget)
  | server (t : Option ServerTarget)

/-- The key of an entry. -/
@[simp] def Setting.key : Setting → String
  | name _ => "name"
  | resources _ => "resources"
  | template _ => "template"
  | phases _ => "phases"
  | vars _ => "variables"
  | steps _ => "steps"
  | dependsOn _ => "dependsOn"
  | condition _ => "condition"
  | continueOnError _ => "continueOnError"
  | enableAccessToken _ => "enableAccessToken"
  | queue _ => "queue"
  | deployment _ => "deployment"
  | server _ => "server"

/-- Reads the value of an entry. -/
def readSetting (key : Scalar) : Reader Setting :=
  match key.text with
  | "name" => do return .name (← Reader.scalar).text
  | "resources" => do return .resources (← readResources)
  | "template" => do return .template (← readTemplateReference)
  | "phases" => do return .phases (← readPhases)
  | "variables" => do return .vars (← readVariables)
  | "steps" => do return .steps (← readSteps)
  | "dependsOn" => do return .dependsOn (← readTexts)
  | "condition" => do return .condition (← Reader.nonEmpty)
  | "continueOnError" => do return .continueOnError (← Reader.nonEmpty)
  | "enableAccessToken" => do return .enableAccessToken (← Reader.nonEmpty)
  | "queue" => do return .queue (← readQueue)
  | "deployment" => do return .deployment (← readDeployment)
  | "server" => do return .server (← readServer)
  | _ => unexpectedIn "process" key

/-- A process with what an entry says. -/
@[simp] def Setting.put (p : BuildProcess) : Setting → BuildProcess
  | name text => { p with name := some text }
  | resources rs => { p with resources := some rs }
  | template r => { p with template := some r }
  | phases entries => { p with phases := some entries }
  | vars vs => { p with vars := some vs }
  | steps ss => { p with steps := some ss }
  | dependsOn names => { p with properties := { p.properties with dependsOn := names } }
  | condition text => { p with properties := { p.properties with condition := some text } }
  | continueOnError text =>
    { p with properties := { p.properties with continueOnError := some text } }
  | enableAccessToken text =>
    { p with properties := { p.properties with enableAccessToken := some text } }
  | queue t => { p with properties := { p.properties with target := some (.queue t) } }
  | deployment t => { p with properties := { p.properties with target := some (.deployment t) } }
  | server t => { p with properties := { p.properties with target := t.map .server } }

/-- The key that a process has already and that excludes another, if it has one. -/
def rival? (p : BuildProcess) (key : String) : Option String :=
  match key with
  | "name" | "resources" => none
  | "template" => (p.phases.map fun _ => "phases").or (phaseKey? p)
  | "phases" => (p.template.map fun _ => "template").or (phaseKey? p)
  | "queue" | "deployment" | "server" =>
    (compositeKey? p).or (p.properties.target.map Target.keyword)
  | _ => compositeKey? p

/-- A process with a further entry, unless it has one that excludes it. -/
def put? (p : BuildProcess) (s : Setting) : Option BuildProcess :=
  if (rival? p s.key).isSome then none else some (s.put p)

theorem refuseBeside_none (key : Scalar) : refuseBeside none key = pure () := rfl

/-- Two refusals are one. -/
theorem refuseBeside_or {α : Type} (a b : Option String) (key : Scalar) (f : Unit → Reader α) :
    (refuseBeside a key >>= fun _ => refuseBeside b key >>= f)
      = refuseBeside (a.or b) key >>= f := by
  cases a with
  | none => rfl
  | some previous => rfl

theorem refuseAfter_target (p : BuildProcess) (key : Scalar) :
    Reader.refuseAfter p.properties.target.isSome
        ((p.properties.target.map Target.keyword).getD "") key.text key.span
      = refuseBeside (p.properties.target.map Target.keyword) key := by
  rw [refuseBeside, Option.isSome_map]

/-- **An entry is read as what it says**, unless another excludes it. -/
theorem property_eq (p : BuildProcess) :
    property p = Reader.scalar >>= fun key => refuseBeside (rival? p key.text) key >>= fun _ =>
      readSetting key >>= fun s => pure (s.put p) := by
  refine bind_congr fun key => ?_
  -- The keys of phases are told apart by `Properties.read?`, all others by `property`.
  split
  case h_7 =>
    unfold Properties.read?
    dsimp only
    rw [refuseAfter_target]
    split
    case h_8 =>
      simp only [rival?, readSetting, pure_bind, *]
      rfl
    all_goals
      next h =>
        simp only [h, rival?, readSetting, ← refuseBeside_or, pure_bind, bind_assoc]
        rfl
  all_goals
    next h =>
      simp only [h, rival?, readSetting, refuseBeside_none, refuseBeside_or, pure_bind, bind_assoc]
      rfl

/-- An entry says something: its key is a scalar, and its value is read as the key asks for. -/
def Says (e : Pair) (s : Setting) : Prop :=
  ∃ key : Scalar, e.key = [⟨.scalar key.text key.plain, key.span⟩] ∧
    ReadsAs (readSetting key) e.value s

theorem readsNode_readSetting (key : Scalar) : ReadsNode (readSetting key) := by
  unfold readSetting
  split
  · exact readsNode_scalar.map _
  · exact readsNode_readResources.map _
  · exact readsNode_readTemplateReference.map _
  · exact readsNode_readPhases.map _
  · exact readsNode_readVariables.map _
  · exact readsNode_readSteps.map _
  · exact readsNode_readTexts.map _
  · exact readsNode_nonEmpty.map _
  · exact readsNode_nonEmpty.map _
  · exact readsNode_nonEmpty.map _
  · exact readsNode_readQueue.map _
  · exact readsNode_readDeployment.map _
  · exact readsNode_readServer.map _
  · exact ⟨fun _ => within_throw _ _ _, fun _ => within_throw _ _ _⟩

theorem yields_readSetting (key : Scalar) : Yields (readSetting key) (·.key = key.text) := by
  unfold readSetting
  split
  case h_14 => exact yields_failAt _ _ _
  all_goals
    next h => exact yields_bind_of_forall fun _ => yields_pure h.symm

theorem readsAs_refuseBeside_iff {α : Type} {present : Option String} {key : Scalar}
    {f : Unit → Reader α} {node : List Spanned} {a : α} :
    ReadsAs (refuseBeside present key >>= f) node a ↔ present = none ∧ ReadsAs (f ()) node a := by
  cases present with
  | none => exact (and_iff_right rfl).symm
  | some previous => exact iff_of_false (fun h => nomatch h [] none) nofun

variable {e : Pair} {pairs : List Pair} {p q : BuildProcess} {s : Setting} {settings : List Setting}

theorem put?_eq_some_iff : put? p s = some q ↔ rival? p s.key = none ∧ s.put p = q := by
  rw [put?]
  cases rival? p s.key with
  | none => exact Option.some_inj.trans (and_iff_right rfl).symm
  | some previous => exact iff_of_false nofun nofun

theorem exists_put?_iff : (∃ q, put? p s = some q) ↔ rival? p s.key = none := by
  simp only [put?_eq_some_iff, exists_and_left, exists_eq', and_true]

theorem exists_put?_and_iff {P : BuildProcess → Prop} :
    (∃ q, put? p s = some q ∧ P q) ↔ rival? p s.key = none ∧ P (s.put p) := by
  simp only [put?_eq_some_iff, and_assoc, exists_and_left, exists_eq_left']

theorem run_cons_iff : (s :: settings).foldlM put? p = some q ↔
    ∃ p', put? p s = some p' ∧ settings.foldlM put? p' = some q := by
  rw [List.foldlM_cons]
  exact Option.bind_eq_some_iff

theorem run_append_iff {more : List Setting} : (settings ++ more).foldlM put? p = some q ↔
    ∃ p', settings.foldlM put? p = some p' ∧ more.foldlM put? p' = some q := by
  rw [List.foldlM_append]
  exact Option.bind_eq_some_iff

/-- An entry leads to a process with what it says, or is refused. -/
theorem readsAs_property_iff (he : e.IsPair) :
    ReadsAs (property p) e.events q ↔ ∃ s, Says e s ∧ put? p s = some q := by
  have hvalue (key : Scalar) := (readsNode_readSetting key).node he.value
  rw [property_eq, Pair.events, (readsNode_scalar.node he.key).readsAs_bind_iff]
  constructor
  · rintro ⟨key, hkey, hreads⟩
    obtain ⟨hrival, hreads⟩ := readsAs_refuseBeside_iff.mp hreads
    obtain ⟨s, hs, hput⟩ := (hvalue key).readsAs_map_iff.mp hreads
    rw [← hs.of_yields (yields_readSetting key)] at hrival
    exact ⟨s, ⟨key, (readsAs_scalar_iff he.key).mp hkey, hs⟩, put?_eq_some_iff.mpr ⟨hrival, hput⟩⟩
  · rintro ⟨s, ⟨key, hkey, hs⟩, hput⟩
    obtain ⟨hrival, hput⟩ := put?_eq_some_iff.mp hput
    rw [hs.of_yields (yields_readSetting key)] at hrival
    exact ⟨key, (readsAs_scalar_iff he.key).mpr hkey, readsAs_refuseBeside_iff.mpr
      ⟨hrival, (hvalue key).readsAs_map_iff.mpr ⟨s, hs, hput⟩⟩⟩

theorem steps_property_iff (hpairs : ∀ e ∈ pairs, e.IsPair) :
    Steps property p pairs q ↔
      ∃ settings, List.Forall₂ Says pairs settings ∧ settings.foldlM put? p = some q := by
  induction pairs generalizing p with
  | nil =>
      rw [steps_nil_iff]
      constructor
      · rintro rfl
        exact ⟨[], .nil, rfl⟩
      · rintro ⟨_, _ | _, hrun⟩
        exact Option.some_inj.mp hrun
  | cons e rest ih =>
      obtain ⟨he, hrest⟩ := List.forall_mem_cons.mp hpairs
      rw [steps_cons_iff]
      constructor
      · rintro ⟨p', hreads, hsteps⟩
        obtain ⟨s, hs, hput⟩ := (readsAs_property_iff he).mp hreads
        obtain ⟨settings, hsays, hrun⟩ := (ih hrest).mp hsteps
        exact ⟨s :: settings, .cons hs hsays, run_cons_iff.mpr ⟨p', hput, hrun⟩⟩
      · rintro ⟨_, _ | ⟨hs, hsays⟩, hrun⟩
        obtain ⟨p', hput, hrun⟩ := run_cons_iff.mp hrun
        exact ⟨p', (readsAs_property_iff he).mpr ⟨_, hs, hput⟩, (ih hrest).mpr ⟨_, hsays, hrun⟩⟩

theorem staysIn_property (p : BuildProcess) (he : e.IsPair) : StaysIn (property p) e.events := by
  rw [property_eq]
  refine he.staysIn readsNode_scalar fun key => ?_
  exact Looks.readsNode (fun inside _ => idle_refuseAfter _ _ _ _ inside) fun _ =>
    (readsNode_readSetting key).map _

/-- A document is read as its node is. -/
theorem readDocument_eq_ok_iff {α : Type} {r : Reader α} {node rest : List Spanned} {text : String}
    {a : α} (hevents : Yaml.events text = .ok (node ++ rest)) (h : StaysIn r node) :
    readDocument r text = .ok a ↔ ReadsAs r node a := by
  rw [readDocument, hevents]
  constructor
  · intro hread
    exact (h.run_eq_ok_iff.mp (Prod.ext hread rfl)).2
  · intro hreads
    exact congrArg Prod.fst (hreads rest _)

/-- **What a process is read as.** Its entries are taken one after the other, each unless the
process has an entry that excludes it. -/
theorem readDocument_read_iff {text : String} {start stop : Span} {rest : List Spanned}
    (hevents : Yaml.events text = .ok (mappingEvents start stop pairs ++ rest))
    (hpairs : ∀ e ∈ pairs, e.IsPair) :
    readDocument read text = .ok p ↔
      ∃ settings, List.Forall₂ Says pairs settings ∧ settings.foldlM put? {} = some p := by
  calc readDocument read text = .ok p
      ↔ ReadsAs read (mappingEvents start stop pairs) p :=
        readDocument_eq_ok_iff hevents (readsNode_read.node (isNode_mappingEvents hpairs))
    _ ↔ Steps property {} pairs p :=
        readsAs_mappingOf_iff hpairs fun p e he => staysIn_property p (hpairs e he)
    _ ↔ _ := steps_property_iff hpairs

/-! ### Processes without a phase at the root -/

/-- A setting that brings neither a phase at the root nor anything else that a process is made
of. -/
@[simp] def Setting.silent : Setting → Bool
  | name _ | resources _ | dependsOn _ | server none => true
  | _ => false

/-- A setting of what a process is made of instead of one phase at the root. -/
@[simp] def Setting.composite : Setting → Bool
  | template _ | phases _ => true
  | _ => false

/-- What a setting says a process depends on. -/
@[simp] def Setting.names? : Setting → Option (List String)
  | dependsOn names => some names
  | _ => none

/-- What a process depends on by its settings, the last of which counts. -/
def lastNames (names : List String) (settings : List Setting) : List String :=
  settings.foldl (fun names s => s.names?.getD names) names

/-- Settings of which the first ones leave nothing behind, and the others are of one thing that a
process is made of instead of one phase at the root. -/
def Apart (settings : List Setting) : Prop :=
  ∃ before s after, settings = before ++ s :: after ∧ (∀ t ∈ before, t.silent = true) ∧
    lastNames [] before = [] ∧ s.composite = true ∧
    ∀ t ∈ after, t.key ∈ ["name", "resources", s.key]

/-- A process that has only a name, resources, and what it depends on. -/
structure Waiting (names : List String) (p : BuildProcess) : Prop where
  template : p.template = none
  phases : p.phases = none
  properties : p.properties = { dependsOn := names }
  vars : p.vars = none
  steps : p.steps = none

/-- A process that is made of one thing instead of a phase at the root. -/
structure Made (key : String) (p : BuildProcess) : Prop where
  composite : key = "template" ∧ p.template.isSome = true ∧ p.phases = none ∨
    key = "phases" ∧ p.phases.isSome = true ∧ p.template = none
  phase : phaseKey? p = none

theorem waiting_iff {names : List String} : Waiting names p ↔ p.template = none ∧ p.phases = none ∧
    p.properties = { dependsOn := names } ∧ p.vars = none ∧ p.steps = none :=
  ⟨fun h => ⟨h.template, h.phases, h.properties, h.vars, h.steps⟩,
    fun ⟨htemplate, hphases, hproperties, hvars, hsteps⟩ =>
      ⟨htemplate, hphases, hproperties, hvars, hsteps⟩⟩

theorem waiting_nil_iff : Waiting [] p ↔ compositeKey? p = none ∧ phaseKey? p = none := by
  rw [waiting_iff, compositeKey?_eq_none, phaseKey?_eq_none, and_assoc]

/-- **One entry before**: a process is left waiting by a silent setting, if it was waiting. -/
theorem put?_waiting_iff {names : List String} :
    (∃ q, put? p s = some q ∧ Waiting names q) ↔
      s.silent = true ∧ ∃ names', Waiting names' p ∧ names = s.names?.getD names' := by
  obtain ⟨name, resources, template, phases, ⟨dependsOn, condition, coe, token, target⟩, vars,
    steps⟩ := p
  rw [exists_put?_and_iff, waiting_iff]
  cases s with
  | dependsOn names' =>
      simp only [rival?, Setting.key, String.reduceEq, imp_self, compositeKey?_eq_none,
        Setting.put, Properties.mk.injEq, Setting.silent, waiting_iff, Setting.names?,
        Option.getD_some, exists_and_right, ↓existsAndEq, true_and]
      grind
  | server t =>
      cases t with
      | none =>
          simp only [rival?, Setting.key, Option.or_eq_none_iff, compositeKey?_eq_none,
            Option.map_eq_none_iff, Setting.put, Option.map_none, Properties.mk.injEq, and_true,
            Setting.silent, waiting_iff, Setting.names?, Option.getD_none, exists_eq_right',
            true_and]
          grind
      | some t => simp [waiting_iff]
  | _ => simp [rival?, waiting_iff, compositeKey?_eq_none]

/-- Entries before: a process is left waiting by silent settings, if it was waiting. -/
theorem run_waiting_iff {names : List String} :
    (∃ q, settings.foldlM put? p = some q ∧ Waiting names q) ↔
      (∀ s ∈ settings, s.silent = true) ∧
        ∃ names', Waiting names' p ∧ names = lastNames names' settings := by
  induction settings generalizing p with
  | nil =>
      constructor
      · rintro ⟨q, hrun, hwaiting⟩
        obtain rfl := Option.some_inj.mp hrun
        exact ⟨nofun, names, hwaiting, rfl⟩
      · rintro ⟨-, names', hwaiting, rfl⟩
        exact ⟨p, rfl, hwaiting⟩
  | cons s rest ih =>
      rw [List.forall_mem_cons]
      constructor
      · rintro ⟨q, hrun, hwaiting⟩
        obtain ⟨p', hput, hrun⟩ := run_cons_iff.mp hrun
        obtain ⟨hrest, names', hwaiting', rfl⟩ := ih.mp ⟨q, hrun, hwaiting⟩
        obtain ⟨hs, names, hp, rfl⟩ := put?_waiting_iff.mp ⟨p', hput, hwaiting'⟩
        exact ⟨⟨hs, hrest⟩, names, hp, rfl⟩
      · rintro ⟨⟨hs, hrest⟩, names', hwaiting, rfl⟩
        obtain ⟨p', hput, hwaiting'⟩ := put?_waiting_iff.mpr ⟨hs, names', hwaiting, rfl⟩
        obtain ⟨q, hrun, hq⟩ := ih.mpr ⟨hrest, _, hwaiting', rfl⟩
        exact ⟨q, run_cons_iff.mpr ⟨p', hput, hrun⟩, hq⟩

/-- What is no template and no phases leaves what a process is made of. -/
theorem compositeKey?_of_put? (hs : s.composite = false) (h : put? p s = some q) :
    compositeKey? q = compositeKey? p := by
  obtain ⟨-, rfl⟩ := put?_eq_some_iff.mp h
  cases s with
  | template r => cases hs
  | phases entries => cases hs
  | _ => rfl

theorem compositeKey?_of_run (hs : ∀ s ∈ settings, s.composite = false)
    (h : settings.foldlM put? p = some q) : compositeKey? q = compositeKey? p := by
  induction settings generalizing p with
  | nil => rw [Option.some_inj.mp h]
  | cons s rest ih =>
      obtain ⟨hs, hrest⟩ := List.forall_mem_cons.mp hs
      obtain ⟨p', hput, hrun⟩ := run_cons_iff.mp h
      rw [ih hrest hrun, compositeKey?_of_put? hs hput]

/-- **The entry itself**: something else than a phase at the root is taken by a process that waits
and depends on nothing. -/
theorem put?_composite_iff (hs : s.composite = true) (hp : compositeKey? p = none) :
    (∃ q, put? p s = some q) ↔ Waiting [] p := by
  obtain ⟨htemplate, hphases⟩ := compositeKey?_eq_none.mp hp
  rw [exists_put?_iff, waiting_nil_iff, and_iff_right hp]
  cases s with
  | template r => simp [rival?, hphases]
  | phases entries => simp [rival?, htemplate]
  | _ => cases hs

theorem made_of_put? (hs : s.composite = true) (hp : Waiting [] p) (h : put? p s = some q) :
    Made s.key q := by
  obtain ⟨-, rfl⟩ := put?_eq_some_iff.mp h
  have hphase : phaseKey? p = none := (waiting_nil_iff.mp hp).2
  cases s with
  | template r => exact ⟨.inl ⟨rfl, rfl, hp.phases⟩, hphase⟩
  | phases entries => exact ⟨.inr ⟨rfl, rfl, hp.template⟩, hphase⟩
  | _ => cases hs

/-- **One entry behind**: what is made of one thing takes nothing of a phase or of another. -/
theorem exists_put?_iff_of_made {key : String} (hp : Made key p) :
    (∃ q, put? p s = some q) ↔ s.key ∈ ["name", "resources", key] := by
  rw [exists_put?_iff]
  obtain ⟨(⟨rfl, htemplate, hphases⟩ | ⟨rfl, hphases, htemplate⟩), hphase⟩ := hp
  · have hcomposite : compositeKey? p = some "template" := if_pos htemplate
    have hsome := Option.isSome_iff_ne_none.mp htemplate
    cases s <;> simp [rival?, hcomposite, hphase, hphases, hsome]
  · have hcomposite : compositeKey? p = some "phases" := by
      rw [compositeKey?, htemplate, Option.isSome_none, if_neg Bool.false_ne_true, if_pos hphases]
    have hsome := Option.isSome_iff_ne_none.mp hphases
    cases s <;> simp [rival?, hcomposite, hphase, htemplate, hsome]

theorem Made.of_put? {key : String} (hp : Made key p) (h : put? p s = some q) : Made key q := by
  have hkey := (exists_put?_iff_of_made hp).mp ⟨q, h⟩
  obtain ⟨-, rfl⟩ := put?_eq_some_iff.mp h
  obtain ⟨hcomposite, hphase⟩ := hp
  refine ⟨?_, ?_⟩
  · cases s <;> grind [Setting.put, Setting.key]
  · cases s <;> grind [Setting.put, Setting.key, phaseKey?]

/-- Entries behind: what is made of one thing takes nothing of a phase or of another. -/
theorem exists_run_iff_of_made {key : String} (hp : Made key p) :
    (∃ q, settings.foldlM put? p = some q) ↔
      ∀ s ∈ settings, s.key ∈ ["name", "resources", key] := by
  induction settings generalizing p with
  | nil => exact iff_of_true ⟨p, rfl⟩ nofun
  | cons s rest ih =>
      rw [List.forall_mem_cons, ← exists_put?_iff_of_made hp]
      constructor
      · rintro ⟨q, hrun⟩
        obtain ⟨p', hput, hrun⟩ := run_cons_iff.mp hrun
        exact ⟨⟨p', hput⟩, (ih (hp.of_put? hput)).mp ⟨q, hrun⟩⟩
      · rintro ⟨⟨p', hput⟩, hrest⟩
        obtain ⟨q, hrun⟩ := (ih (hp.of_put? hput)).mpr hrest
        exact ⟨q, run_cons_iff.mpr ⟨p', hput, hrun⟩⟩

/-- **Settings make a process of something else than a phase at the root if they are apart.** -/
theorem exists_run_iff_apart (h : ∃ s ∈ settings, s.composite = true) :
    (∃ q, settings.foldlM put? {} = some q) ↔ Apart settings := by
  constructor
  · rintro ⟨q, hrun⟩
    obtain ⟨s, hfind⟩ := Option.isSome_iff_exists.mp (List.find?_isSome.mpr h)
    obtain ⟨hs, before, after, rfl, hbefore⟩ := List.find?_eq_some_iff_append.mp hfind
    simp only [Bool.not_eq_true'] at hbefore
    obtain ⟨p, hrunBefore, hrun⟩ := run_append_iff.mp hrun
    obtain ⟨p', hput, hrunAfter⟩ := run_cons_iff.mp hrun
    have hwaiting : Waiting [] p :=
      (put?_composite_iff hs (compositeKey?_of_run hbefore hrunBefore)).mp ⟨p', hput⟩
    obtain ⟨hsilent, names, hnames, hlast⟩ := run_waiting_iff.mp ⟨p, hrunBefore, hwaiting⟩
    have hnil : ([] : List String) = names := congrArg Properties.dependsOn hnames.properties
    exact ⟨before, s, after, rfl, hsilent, hnil ▸ hlast.symm, hs,
      (exists_run_iff_of_made (made_of_put? hs hwaiting hput)).mp ⟨q, hrunAfter⟩⟩
  · rintro ⟨before, s, after, rfl, hsilent, hlast, hs, hafter⟩
    have hempty : Waiting [] {} := ⟨rfl, rfl, rfl, rfl, rfl⟩
    obtain ⟨p, hrunBefore, hwaiting⟩ := run_waiting_iff.mpr ⟨hsilent, [], hempty, hlast.symm⟩
    obtain ⟨p', hput⟩ := (put?_composite_iff hs (waiting_nil_iff.mp hwaiting).1).mpr hwaiting
    obtain ⟨q, hrunAfter⟩ := (exists_run_iff_of_made (made_of_put? hs hwaiting hput)).mpr hafter
    exact ⟨q, run_append_iff.mpr ⟨p, hrunBefore, run_cons_iff.mpr ⟨p', hput, hrunAfter⟩⟩⟩

/-! ### Keys that exclude each other -/

/-- The keys of what a process is made of instead of one phase at the root. -/
def compositeKeys : List String := ["template", "phases"]

/-- Keys that exclude each other: the first is of what a process is made of instead of one phase at
the root, the second of something else that it is made of, or of such a phase. -/
def Excludes (a b : String) : Prop :=
  a ∈ compositeKeys ∧ b ∈ compositeKeys ++ ["variables", "steps"] ++ Properties.keywords ∧ a ≠ b

instance (a b : String) : Decidable (Excludes a b) := inferInstanceAs (Decidable (_ ∧ _))

/-- An entry has a key: a scalar with this text. -/
def HasKey (e : Pair) (text : String) : Prop := ∃ plain span, e.key = [⟨.scalar text plain, span⟩]

/-- An entry says something of its key. -/
theorem Says.key_eq {text : String} (h : Says e s) (hkey : HasKey e text) : s.key = text := by
  obtain ⟨key, hscalar, hreads⟩ := h
  obtain ⟨plain, span, htext⟩ := hkey
  have heq := hscalar.symm.trans htext
  simp only [List.cons.injEq, Spanned.mk.injEq, Event.scalar.injEq, and_true] at heq
  rw [hreads.of_yields (yields_readSetting key), heq.1.1]

theorem composite_iff : s.composite = true ↔ s.key ∈ compositeKeys := by
  cases s <;> simp [compositeKeys]

theorem lastNames_of_none {names : List String} (h : ∀ s ∈ settings, s.names? = none) :
    lastNames names settings = names := by
  induction settings generalizing names with
  | nil => rfl
  | cons s rest ih =>
      obtain ⟨hs, hrest⟩ := List.forall_mem_cons.mp h
      rw [lastNames, List.foldl_cons, hs]
      exact ih hrest

/-- What a process depends on is what some setting says, unless none does. -/
theorem lastNames_mem (names : List String) (settings : List Setting) :
    .dependsOn (lastNames names settings) ∈ settings ∨ ∀ s ∈ settings, s.names? = none := by
  induction settings generalizing names with
  | nil => exact .inr nofun
  | cons s rest ih =>
      rcases ih (s.names?.getD names) with hmem | hnone
      · exact .inl (List.mem_cons_of_mem _ hmem)
      · cases s with
        | dependsOn names' =>
            have hlast : lastNames names (.dependsOn names' :: rest) = names' :=
              lastNames_of_none hnone
            rw [hlast]
            exact .inl List.mem_cons_self
        | _ => exact .inr (List.forall_mem_cons.mpr ⟨rfl, hnone⟩)

theorem Setting.composite_of_silent (h : s.silent = true) : s.composite = false := by
  cases s with
  | template r => cases h
  | phases entries => cases h
  | _ => rfl

/-- A silent setting is of a process, or leaves nothing of a phase behind. -/
theorem Setting.silent_cases (h : s.silent = true) :
    s.key ∈ ["name", "resources"] ∨ s = .server none ∨ ∃ names, s.names? = some names := by
  cases s with
  | server t => cases t <;> simp_all
  | _ => simp_all

/-- Settings that exclude each other are apart only if one of them leaves nothing behind. -/
theorem Apart.mem_of_excludes {a b : String} (h : Apart settings) (hab : Excludes a b)
    (ha : ∃ s ∈ settings, s.key = a) (hb : ∃ s ∈ settings, s.key = b) :
    .dependsOn [] ∈ settings ∨ .server none ∈ settings := by
  obtain ⟨before, s, after, rfl, hsilent, hlast, hs, hafter⟩ := h
  obtain ⟨hcomposite, hexcluded, hne⟩ := hab
  have hneither : ∀ key ∈ compositeKeys ++ ["variables", "steps"] ++ Properties.keywords,
      key ∉ ["name", "resources"] := by decide
  have hbehind : ∀ t ∈ s :: after, t.key ∉ ["name", "resources"] → t.key = s.key := by
    refine List.forall_mem_cons.mpr ⟨fun _ => rfl, fun t ht hnot => ?_⟩
    rcases List.mem_append.mp (show t.key ∈ ["name", "resources"] ++ [s.key] from hafter t ht) with
      hmem | hmem
    · exact absurd hmem hnot
    · exact List.mem_singleton.mp hmem
  -- Nothing before `s` is composite, so the first key is that of `s`; the second stands before it.
  have hkey : a = s.key := by
    obtain ⟨t, ht, rfl⟩ := ha
    rcases List.mem_append.mp ht with hmem | hmem
    · have hnot := Setting.composite_of_silent (hsilent t hmem)
      exact absurd (composite_iff.mpr hcomposite) (Bool.eq_false_iff.mp hnot)
    · exact hbehind t hmem (hneither _ (List.mem_append_left _ (List.mem_append_left _ hcomposite)))
  obtain ⟨t, ht, rfl⟩ := hb
  have hnot := hneither _ hexcluded
  rcases List.mem_append.mp ht with hmem | hmem
  · rcases Setting.silent_cases (hsilent t hmem) with hkey | rfl | ⟨names, hnames⟩
    · exact absurd hkey hnot
    · exact .inr ht
    · rcases lastNames_mem [] before with hlastMem | hnone
      · exact .inl (List.mem_append_left _ (hlast ▸ hlastMem))
      · exact nomatch hnames.symm.trans (hnone t hmem)
  · exact absurd (hkey.trans (hbehind t hmem hnot).symm) hne

/-! ### Documents -/

theorem exists_mem_of_forall₂ {α β : Type} {R : α → β → Prop} {as : List α} {bs : List β}
    (h : List.Forall₂ R as bs) {a : α} (ha : a ∈ as) : ∃ b ∈ bs, R a b := by
  induction h with
  | nil => cases ha
  | cons hab _ ih =>
      rcases List.mem_cons.mp ha with rfl | ha
      · exact ⟨_, List.mem_cons_self, hab⟩
      · obtain ⟨b, hb, hab⟩ := ih ha
        exact ⟨b, List.mem_cons_of_mem _ hb, hab⟩

/-- **Which processes with keys that exclude each other are read.** In whichever order the entries
stand: a process is read if what its entries say is apart. Then one of them is an empty `dependsOn`
or a `server` that is none; without such an entry it is refused. -/
theorem readDocument_read_of_excludes {text : String} {start stop : Span} {rest : List Spanned}
    {a b : String} (hevents : Yaml.events text = .ok (mappingEvents start stop pairs ++ rest))
    (hpairs : ∀ e ∈ pairs, e.IsPair) (hab : Excludes a b) (ha : ∃ e ∈ pairs, HasKey e a)
    (hb : ∃ e ∈ pairs, HasKey e b) :
    ((∃ p, readDocument read text = .ok p) ↔
      ∃ settings, List.Forall₂ Says pairs settings ∧ Apart settings) ∧
    ((∀ e ∈ pairs, ¬ Says e (.dependsOn []) ∧ ¬ Says e (.server none)) →
      ∃ d, readDocument read text = .error d) := by
  have hsetting : ∀ {key : String}, (∃ e ∈ pairs, HasKey e key) → ∀ {settings},
      List.Forall₂ Says pairs settings → ∃ s ∈ settings, s.key = key := by
    rintro key ⟨e, he, hkey⟩ settings hsays
    obtain ⟨s, hs, hes⟩ := exists_mem_of_forall₂ hsays he
    exact ⟨s, hs, hes.key_eq hkey⟩
  have haccepts : (∃ p, readDocument read text = .ok p) ↔
      ∃ settings, List.Forall₂ Says pairs settings ∧ Apart settings := by
    simp only [readDocument_read_iff hevents hpairs]
    rw [exists_comm]
    refine exists_congr fun settings => ?_
    rw [exists_and_left]
    refine and_congr_right fun hsays => exists_run_iff_apart ?_
    obtain ⟨s, hs, rfl⟩ := hsetting ha hsays
    exact ⟨s, hs, composite_iff.mpr hab.1⟩
  refine ⟨haccepts, fun hloud => ?_⟩
  cases hread : readDocument read text with
  | error d => exact ⟨d, rfl⟩
  | ok p =>
      obtain ⟨settings, hsays, hapart⟩ := haccepts.mp ⟨p, hread⟩
      rcases hapart.mem_of_excludes hab (hsetting ha hsays) (hsetting hb hsays) with hmem | hmem
      · obtain ⟨e, he, hes⟩ := exists_mem_of_forall₂ hsays.flip hmem
        exact absurd hes (hloud e he).1
      · obtain ⟨e, he, hes⟩ := exists_mem_of_forall₂ hsays.flip hmem
        exact absurd hes (hloud e he).2

/-- A process that depends on nothing and has one phase. -/
def dependsOnNothing : String := "dependsOn: []\nphases:\n- phase: a\n"

/-- The entries of the process. -/
def dependsOnNothingPairs : List Pair :=
  [{ key := [⟨.scalar "dependsOn" true, ⟨⟨1, 1⟩, ⟨1, 10⟩⟩⟩]
     value := [⟨.sequenceStart, ⟨⟨1, 12⟩, ⟨1, 13⟩⟩⟩, ⟨.sequenceEnd, ⟨⟨1, 13⟩, ⟨1, 13⟩⟩⟩] },
   { key := [⟨.scalar "phases" true, ⟨⟨2, 1⟩, ⟨2, 7⟩⟩⟩]
     value := [⟨.sequenceStart, ⟨⟨3, 3⟩, ⟨4, 1⟩⟩⟩, ⟨.mappingStart, ⟨⟨3, 8⟩, ⟨4, 1⟩⟩⟩,
       ⟨.scalar "phase" true, ⟨⟨3, 3⟩, ⟨3, 8⟩⟩⟩, ⟨.scalar "a" true, ⟨⟨3, 10⟩, ⟨3, 11⟩⟩⟩,
       ⟨.mappingEnd, ⟨⟨4, 1⟩, ⟨4, 1⟩⟩⟩, ⟨.sequenceEnd, ⟨⟨4, 1⟩, ⟨4, 1⟩⟩⟩] }]

theorem events_dependsOnNothing : Yaml.events dependsOnNothing
    = .ok (mappingEvents ⟨⟨1, 10⟩, ⟨4, 1⟩⟩ ⟨⟨4, 1⟩, ⟨4, 1⟩⟩ dependsOnNothingPairs ++ []) := by
  decide +kernel

theorem isPair_dependsOnNothing : ∀ e ∈ dependsOnNothingPairs, e.IsPair := by
  have hphase : IsNode [⟨.mappingStart, ⟨⟨3, 8⟩, ⟨4, 1⟩⟩⟩, ⟨.scalar "phase" true, ⟨⟨3, 3⟩, ⟨3, 8⟩⟩⟩,
      ⟨.scalar "a" true, ⟨⟨3, 10⟩, ⟨3, 11⟩⟩⟩, ⟨.mappingEnd, ⟨⟨4, 1⟩, ⟨4, 1⟩⟩⟩] :=
    .collection .mapping (.cons (.scalar "phase" true ⟨⟨3, 3⟩, ⟨3, 8⟩⟩)
      (.cons (.scalar "a" true ⟨⟨3, 10⟩, ⟨3, 11⟩⟩) .nil))
  have hphases := @IsNode.collection ⟨.sequenceStart, ⟨⟨3, 3⟩, ⟨4, 1⟩⟩⟩
    ⟨.sequenceEnd, ⟨⟨4, 1⟩, ⟨4, 1⟩⟩⟩ _ .sequence (.cons hphase .nil)
  exact List.forall_mem_cons.mpr ⟨⟨.scalar _ _ _, .collection .sequence .nil⟩,
    List.forall_mem_singleton.mpr ⟨.scalar _ _ _, hphases⟩⟩

/-- A process that has a condition and phases. -/
def conditionedPhases : String := "condition: c\nphases: []\n"

/-- The entries of the process. -/
def conditionedPhasesPairs : List Pair :=
  [{ key := [⟨.scalar "condition" true, ⟨⟨1, 1⟩, ⟨1, 10⟩⟩⟩]
     value := [⟨.scalar "c" true, ⟨⟨1, 12⟩, ⟨1, 13⟩⟩⟩] },
   { key := [⟨.scalar "phases" true, ⟨⟨2, 1⟩, ⟨2, 7⟩⟩⟩]
     value := [⟨.sequenceStart, ⟨⟨2, 9⟩, ⟨2, 10⟩⟩⟩, ⟨.sequenceEnd, ⟨⟨2, 10⟩, ⟨2, 10⟩⟩⟩] }]

theorem events_conditionedPhases : Yaml.events conditionedPhases
    = .ok (mappingEvents ⟨⟨1, 10⟩, ⟨3, 1⟩⟩ ⟨⟨3, 1⟩, ⟨3, 1⟩⟩ conditionedPhasesPairs ++ []) := by
  decide +kernel

theorem isPair_conditionedPhases : ∀ e ∈ conditionedPhasesPairs, e.IsPair :=
  List.forall_mem_cons.mpr ⟨⟨.scalar _ _ _, .scalar _ _ _⟩,
    List.forall_mem_singleton.mpr ⟨.scalar _ _ _, .collection .sequence .nil⟩⟩

theorem readDocument_read_dependsOnNothing :
    Excludes "phases" "dependsOn" ∧
    ((∃ p, readDocument read dependsOnNothing = .ok p) ↔
      ∃ settings, List.Forall₂ Says dependsOnNothingPairs settings ∧ Apart settings) ∧
    ((∀ e ∈ dependsOnNothingPairs, ¬ Says e (.dependsOn []) ∧ ¬ Says e (.server none)) →
      ∃ d, readDocument read dependsOnNothing = .error d) ∧
    ∃ d, readDocument read conditionedPhases = .error d := by
  have hab : Excludes "phases" "dependsOn" := by decide
  have hbesides : Excludes "phases" "condition" := by decide
  have hcondition : ∀ e ∈ conditionedPhasesPairs,
      ¬ Says e (.dependsOn []) ∧ ¬ Says e (.server none) :=
    List.forall_mem_cons.mpr
      ⟨⟨fun h => absurd (h.key_eq ⟨true, _, rfl⟩) (by decide),
        fun h => absurd (h.key_eq ⟨true, _, rfl⟩) (by decide)⟩,
      List.forall_mem_singleton.mpr
        ⟨fun h => absurd (h.key_eq ⟨true, _, rfl⟩) (by decide),
          fun h => absurd (h.key_eq ⟨true, _, rfl⟩) (by decide)⟩⟩
  obtain ⟨haccepts, hrefuses⟩ :=
    readDocument_read_of_excludes events_dependsOnNothing isPair_dependsOnNothing hab
      ⟨_, List.mem_cons_of_mem _ List.mem_cons_self, true, _, rfl⟩
      ⟨_, List.mem_cons_self, true, _, rfl⟩
  refine ⟨hab, haccepts, hrefuses, ?_⟩
  exact (readDocument_read_of_excludes events_conditionedPhases isPair_conditionedPhases hbesides
    ⟨_, List.mem_cons_of_mem _ List.mem_cons_self, true, _, rfl⟩
    ⟨_, List.mem_cons_self, true, _, rfl⟩).2 hcondition

/-- Before `phases`, an empty `dependsOn` is accepted. -/
theorem dependsOnNothing_isAccepted :
    ¬ ∀ (text : String) (start stop : Span) (rest : List Spanned) (pairs : List Pair) (e e' : Pair)
        (a b : String),
      Yaml.events text = .ok (mappingEvents start stop pairs ++ rest) → (∀ e ∈ pairs, e.IsPair) →
      Excludes a b → e ∈ pairs → e' ∈ pairs → HasKey e a → HasKey e' b →
      (∃ s, Says e s) → (∃ s, Says e' s) → ∃ d, readDocument read text = .error d := by
  have hok : (readDocument read dependsOnNothing).isOk = true := by decide +kernel
  have hread := readDocument_getD {} hok
  obtain ⟨settings, hsays, -⟩ :=
    (readDocument_read_iff events_dependsOnNothing isPair_dependsOnNothing).mp hread
  intro hrefused
  obtain ⟨d, herror⟩ := hrefused dependsOnNothing _ _ _ _ _ _ "phases" "dependsOn"
    events_dependsOnNothing isPair_dependsOnNothing (by decide)
    (List.mem_cons_of_mem _ List.mem_cons_self) List.mem_cons_self ⟨true, _, rfl⟩ ⟨true, _, rfl⟩
    ((exists_mem_of_forall₂ hsays (List.mem_cons_of_mem _ List.mem_cons_self)).imp fun _ h => h.2)
    ((exists_mem_of_forall₂ hsays List.mem_cons_self).imp fun _ h => h.2)
  rw [herror] at hok
  cases hok

end PipelineExpansion.BuildProcess
