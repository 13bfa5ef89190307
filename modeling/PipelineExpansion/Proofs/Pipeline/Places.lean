import PipelineExpansion.Pipeline.Load
import PipelineExpansion.Proofs.Dictionary
import PipelineExpansion.Proofs.Pipeline.Binding
import PipelineExpansion.Proofs.Template.Places

/-!
# Where the faults of readers come from

Readers that need no other file fail at a token that they are given: `keeps_…` says so of each of
them, and says where what it returns is from as far as that holds tokens. What is turned back into
a token has no place, but for the contexts of templates that jobs and stages carry along
(`Job.From`, `Stage.From`).
-/

namespace PipelineExpansion.Pipeline

open Template (Context Entry EntryFrom Key Token from_unknown within_meaning)

variable {S : Set Yaml.Span} {t : Token} {e : Entry} {entries : List Entry} {α : Type}

/-- Entries are read one after another into something that holds no token. -/
theorem keeps_entries {read : α → Entry → Except Diagnostic α}
    (hread : ∀ a e, EntryFrom S e → Keeps S (read a e) fun _ => True) (a : α)
    (h : ∀ e ∈ entries, EntryFrom S e) : Keeps S (entries.foldlM read a) fun _ => True :=
  keeps_foldlM (fun a e _ he => hread a e he) trivial h

/-- Fields are read one after another from the entries of a mapping. -/
theorem keeps_fields {read : α → Entry → Except Diagnostic α} (h : t.From S) (what : String)
    (hread : ∀ a e, EntryFrom S e → Keeps S (read a e) fun _ => True) (a : α) :
    Keeps S (do (← t.expectMapping what).foldlM read a) fun _ => True :=
  (h.keeps_expectMapping what).bind fun _ hentries => keeps_entries hread a hentries

/-! ### Containers and pools -/

theorem keeps_readMounts (m : Mounts) (he : EntryFrom S e) : Keeps S (m.read e) fun _ => True := by
  refine (he.2.keeps_expectText _).bind fun _ _ => ?_
  split
  all_goals first
    | exact keeps_pure trivial
    | exact keeps_throw (he.1.keyFault _)

theorem keeps_mounts (h : t.From S) : Keeps S (Mounts.ofToken? t) fun _ => True :=
  keeps_fields h _ (fun m _ he => keeps_readMounts m he) _

theorem keeps_readContainer (c : Container) (he : EntryFrom S e) :
    Keeps S (c.read e) fun _ => True := by
  obtain ⟨key, value⟩ := e
  have hvalue : value.From S := he.2
  dsimp only [Container.read]
  split
  all_goals first
    | exact (hvalue.keeps_expectText _).done
    | exact (hvalue.keeps_expectTexts _).done
    | exact (hvalue.keeps_expectNonEmpty _).done
    | exact (hvalue.keeps_expectTextMap _).done
    | exact (keeps_mounts hvalue).done
    | exact keeps_ok trivial

theorem keeps_container (h : t.From S) : Keeps S (Container.ofToken? t) fun _ => True := by
  unfold Container.ofToken?
  split
  · exact (h.keeps_expectNonEmpty _).done
  · exact keeps_fields h _ (fun c _ he => keeps_readContainer c he) _

theorem keeps_readPool (p : Pool) (he : EntryFrom S e) : Keeps S (p.read e) fun _ => True := by
  obtain ⟨key, value⟩ := e
  have hvalue : value.From S := he.2
  dsimp only [Pool.read]
  split
  all_goals first
    | exact (hvalue.keeps_expectText _).done
    | exact (hvalue.keeps_expectTexts _).done
    | exact keeps_ok trivial

theorem keeps_pool (h : t.From S) : Keeps S (Pool.ofToken? t) fun _ => True := by
  unfold Pool.ofToken?
  split
  · exact (h.keeps_expectText _).done
  · exact keeps_fields h _ (fun p _ he => keeps_readPool p he) _

/-! ### Steps -/

theorem keeps_templateParameters (h : ∀ e ∈ entries, EntryFrom S e) :
    Keeps S (templateParameters entries) fun parameters => ∀ t ∈ parameters, t.From S := by
  unfold templateParameters
  split
  · exact keeps_ok nofun
  · next key value =>
    obtain ⟨hkey, hvalue⟩ : EntryFrom S (key, value) := h _ (List.mem_singleton_self _)
    split
    · refine (hvalue.keeps_expectMapping _).bind fun _ _ => keeps_pure ?_
      rintro t ⟨⟩
      exact hvalue
    · exact keeps_error (hkey.keyFault _)
  · next key value _ =>
    have hkey : EntryFrom S (key, value) := h _ (List.mem_cons_of_mem _ List.mem_cons_self)
    exact keeps_error (hkey.1.keyFault _)

theorem from_templateReference? {path : Token} {rest : List Entry}
    (h : ∀ e ∈ entries, EntryFrom S e) (hreference : templateReference? entries = some (path, rest)) :
    path.From S ∧ ∀ e ∈ rest, EntryFrom S e := by
  unfold templateReference? at hreference
  split at hreference
  · obtain ⟨he, hrest⟩ := List.forall_mem_cons.mp h
    split at hreference
    · cases hreference
      exact ⟨he.2, hrest⟩
    · cases hreference
  · cases hreference

theorem keeps_taskReference (c : Context) (task : String) :
    Keeps S (taskReference c task) fun _ => True := by
  unfold taskReference
  split
  · exact keeps_ok trivial
  · split
    · exact keeps_ok trivial
    · split
      · exact keeps_ok trivial
      · exact keeps_error (within_meaning _)

theorem keeps_located {x : Except Diagnostic α} {P : α → Prop} {o : Template.Origin}
    (h : Keeps S x P) (ho : o.From S) : Keeps S (located o.span x) P := by
  refine ⟨fun a ha => h.returns a (mapError_eq_ok.mp ha), fun d hd => ?_⟩
  cases x with
  | ok a => cases hd
  | error d' =>
      cases hd
      exact (h.fault d' rfl).withSpan ho

theorem keeps_expectInt32 (h : t.From S) (what : String) :
    Keeps S (expectInt32 t what) fun _ => True := by
  refine (h.keeps_expectInt what).bind fun n _ => ?_
  split
  · exact keeps_pure trivial
  · exact keeps_throw (h.fault _)

theorem keeps_readTarget (target : Target) (he : EntryFrom S e) :
    Keeps S (target.read e) fun _ => True := by
  unfold Target.read
  split
  · exact keeps_ok trivial
  · exact keeps_ok trivial
  · split
    · exact keeps_pure trivial
    · exact (he.2.keeps_expectTexts _).done
  · exact keeps_ok trivial

theorem keeps_target (h : t.From S) : Keeps S (Target.ofToken? t) fun _ => True := by
  unfold Target.ofToken?
  split
  · exact keeps_ok trivial
  · exact keeps_fields h _ (fun target _ he => keeps_readTarget target he) _

theorem keeps_control? (step : Step) (he : EntryFrom S e) :
    Keeps S (step.control? e) fun _ => True := by
  obtain ⟨key, value⟩ := e
  have hvalue : value.From S := he.2
  dsimp only [Step.control?]
  split
  all_goals first
    | exact (hvalue.keeps_expectText _).done
    | exact (hvalue.keeps_expectBool _).done
    | exact (hvalue.keeps_expectTextMap _).done
    | exact (keeps_expectInt32 hvalue _).done
    | exact (keeps_target hvalue).done
    | exact keeps_ok trivial

theorem keeps_controls (step : Step) (h : ∀ e ∈ entries, EntryFrom S e) :
    Keeps S (step.controls entries) fun r => ∀ e ∈ r.2, EntryFrom S e := by
  induction entries generalizing step with
  | nil => exact keeps_ok (List.forall_mem_nil _)
  | cons e rest ih =>
      obtain ⟨he, hrest⟩ := List.forall_mem_cons.mp h
      unfold Step.controls
      refine (keeps_control? step he).bind fun known _ => ?_
      split
      · next step => exact ih step hrest
      · refine (ih step hrest).bind ?_
        rintro ⟨step, left⟩ hleft
        exact keeps_pure (List.forall_mem_cons.mpr ⟨he, hleft⟩)

theorem keeps_addInput (inputs : Task.Inputs) (he : EntryFrom S e) :
    Keeps S (addInput inputs e) fun _ => True :=
  (he.2.keeps_expectText _).done

theorem keeps_addTaskInputs (inputs : Task.Inputs) (he : EntryFrom S e) :
    Keeps S (addTaskInputs inputs e) fun _ => True := by
  unfold addTaskInputs
  split
  · exact (he.2.keeps_expectTextMap _).done
  · exact keeps_ok trivial

theorem keeps_stepOfEntries {key : Key} {value : Token} (c : Context) (hkey : key.origin.From S)
    (hvalue : value.From S) (h : ∀ e ∈ entries, EntryFrom S e) :
    Keeps S (Step.ofEntries? c key value entries) fun _ => True := by
  refine (keeps_controls {} h).bind ?_
  rintro ⟨step, left⟩ hleft
  refine (hvalue.keeps_expectText _).bind fun primary _ => ?_
  split
  · refine (keeps_located (keeps_taskReference c _) hvalue.origin).bind fun reference _ => ?_
    exact (keeps_entries (fun inputs _ he => keeps_addTaskInputs inputs he) _ hleft).done
  · split
    · refine (keeps_located (keeps_taskReference c _) hkey).bind fun reference _ => ?_
      exact (keeps_entries (fun inputs _ he => keeps_addInput inputs he) _ hleft).done
    · exact keeps_throw (hkey.keyFault _)

/-! ### Variables -/

/-- The parameters of an item are from where its entries are from. -/
def VariableItem.From (S : Set Yaml.Span) (item : VariableItem) : Prop :=
  ∀ t ∈ item.parameters, t.From S

theorem keeps_readVariableItem {item : VariableItem} (h : item.From S) (he : EntryFrom S e) :
    Keeps S (item.read e) (VariableItem.From S) := by
  obtain ⟨key, value⟩ := e
  obtain ⟨hkey, hvalue⟩ : key.origin.From S ∧ value.From S := he
  dsimp only [VariableItem.read]
  split
  all_goals first
    | exact (hvalue.keeps_expectText _).map fun _ _ => h
    | exact (hvalue.keeps_expectBool _).map fun _ _ => h
    | exact (hvalue.keeps_expectNonEmpty _).map fun _ _ => h
    | exact keeps_error (hkey.keyFault _)
    | skip
  refine keeps_ok ?_
  rintro t ⟨⟩
  exact hvalue

theorem keeps_addVariableEntry (vars : List Variable) (he : EntryFrom S e) :
    Keeps S (addVariableEntry vars e) fun _ => True :=
  (he.2.keeps_expectText _).done

theorem keeps_addStaticEntry (pairs : List (String × String)) (he : EntryFrom S e) :
    Keeps S (addStaticEntry pairs e) fun _ => True := by
  unfold addStaticEntry
  split
  · exact keeps_ok trivial
  · exact (he.2.keeps_expectText _).done

theorem keeps_addStaticItem (pairs : List (String × String)) (h : t.From S) :
    Keeps S (addStaticItem pairs t) fun _ => True := by
  unfold addStaticItem
  split
  · exact keeps_ok trivial
  · split
    · exact keeps_ok trivial
    · split
      · next name value hname hvalue =>
        refine ((h.get hname).keeps_expectText _).bind fun name _ => ?_
        exact ((h.get hvalue).keeps_expectText _).done
      · exact keeps_ok trivial

theorem keeps_staticVariables (h : t.From S) : Keeps S (staticVariables t) fun _ => True := by
  unfold staticVariables
  split
  · exact keeps_entries (fun pairs _ he => keeps_addStaticEntry pairs he) _
      (Token.from_mapping.mp h).2
  · next o items =>
    have hitems := (Token.from_sequence.mp h).2
    exact keeps_foldlM (fun pairs t _ (ht : t.From S) => keeps_addStaticItem pairs ht) trivial hitems
  · exact keeps_ok trivial

theorem keeps_visibleVariables (c : Context) {declared : Option Token}
    (h : ∀ t ∈ declared, t.From S) : Keeps S (visibleVariables c declared) (·.From S) := by
  have hown : Keeps S ((declared.map staticVariables).getD (.ok [])) fun _ => True := by
    cases declared with
    | none => exact keeps_ok trivial
    | some t => exact keeps_staticVariables (h t rfl)
  refine hown.bind fun own _ => keeps_pure (Token.from_ofPairs.mpr ?_)
  exact List.forall_mem_map.mpr fun _ _ => Token.from_ofText _

/-! ### Strategies -/

theorem keeps_parallelOf (h : t.From S) : Keeps S (parallelOf t) fun _ => True := by
  unfold parallelOf
  split
  · next v hv => exact ((h.get hv).keeps_expectText _).mapped fun _ _ => trivial
  · exact keeps_ok trivial

theorem keeps_incrementsOf (h : t.From S) : Keeps S (incrementsOf t) fun _ => True := by
  unfold incrementsOf
  split
  · next v hv =>
    refine ((h.get hv).keeps_expectSequence _).bind fun items hitems => ?_
    exact (keeps_mapM (fun t ht => Token.From.keeps_expectText ht _) hitems).done
  · exact keeps_ok trivial

theorem keeps_addLeg (matrix : Dictionary (Dictionary String)) (he : EntryFrom S e) :
    Keeps S (addLeg matrix e) fun _ => True :=
  (he.2.keeps_expectTextMap _).done

theorem keeps_readForJob (s : Strategy) (he : EntryFrom S e) :
    Keeps S (s.readForJob e) fun _ => True := by
  obtain ⟨key, value⟩ := e
  have hvalue : value.From S := he.2
  dsimp only [Strategy.readForJob]
  split
  · exact (hvalue.keeps_expectText _).done
  · exact (hvalue.keeps_expectText _).done
  · split
    · exact (hvalue.keeps_expectText _).done
    · refine (hvalue.keeps_expectMapping _).bind fun entries hentries => ?_
      exact (keeps_entries (fun matrix _ he => keeps_addLeg matrix he) _ hentries).done
  · exact keeps_ok trivial

/-! ### Jobs and stages -/

/-- The context of a template that a job carries along. -/
def Job.From (S : Set Yaml.Span) (j : Job) : Prop := ∀ t ∈ j.templateContext, t.From S

/-- The contexts of templates that a stage and its jobs carry along. -/
structure Stage.From (S : Set Yaml.Span) (s : Stage) : Prop where
  templateContext : ∀ t ∈ s.templateContext, t.From S
  jobs : ∀ jobs ∈ s.jobs, ∀ j ∈ jobs, j.From S

/-- A job that is being read, and its strategy, are from where its entries are from. -/
structure JobDraft.From (S : Set Yaml.Span) (d : JobDraft) : Prop where
  job : d.job.From S
  strategy : ∀ t ∈ d.strategy, t.From S

theorem keeps_nameOf? (h : t.From S) (what : String) : Keeps S (nameOf? t what) fun _ => True := by
  unfold nameOf?
  split
  · exact keeps_ok trivial
  · exact (h.keeps_expectText _).mapped fun _ _ => trivial

theorem keeps_readEnvironment (draft : Option String × Option String) (he : EntryFrom S e) :
    Keeps S (readEnvironment draft e) fun _ => True := by
  unfold readEnvironment
  split
  · exact (he.2.keeps_expectText _).done
  · exact (he.2.keeps_expectText _).done
  · exact keeps_ok trivial

theorem keeps_environment (h : t.From S) : Keeps S (Environment.ofToken? t) fun _ => True := by
  unfold Environment.ofToken?
  split
  · exact (h.keeps_expectText _).done
  · refine (h.keeps_expectMapping _).bind fun entries hentries => ?_
    have hread := keeps_entries (fun draft _ he => keeps_readEnvironment draft he) (none, none)
      hentries
    refine hread.bind fun draft _ => ?_
    split
    · exact keeps_pure trivial
    · exact keeps_throw (h.fault _)

theorem keeps_readUses (u : Uses) (he : EntryFrom S e) : Keeps S (u.read e) fun _ => True := by
  unfold Uses.read
  split
  · exact (he.2.keeps_expectTexts _).done
  · exact (he.2.keeps_expectTexts _).done
  · exact keeps_ok trivial

theorem keeps_uses (h : t.From S) : Keeps S (Uses.ofToken? t) fun _ => True :=
  keeps_fields h _ (fun u _ he => keeps_readUses u he) _

theorem keeps_workspaceOf (h : t.From S) : Keeps S (workspaceOf t) fun _ => True := by
  unfold workspaceOf
  split
  · next v hv => exact ((h.get hv).keeps_expectText _).mapped fun _ _ => trivial
  · exact keeps_ok trivial

theorem keeps_addService (services : Dictionary Container) (he : EntryFrom S e) :
    Keeps S (addService services e) fun _ => True :=
  (keeps_container he.2).done

mutual

/-- A text in place of a scalar has the place of the scalar. -/
theorem from_textual {t : Token} (h : t.From S) : (textual t).From S := by
  match t with
  | .null o => exact h
  | .boolean o b | .number o n | .text o s => exact Token.from_of_isScalar rfl h.origin
  | .sequence o items =>
      obtain ⟨ho, hitems⟩ := Token.from_sequence.mp h
      unfold textual
      exact Token.from_sequence.mpr ⟨ho, from_textualItems hitems⟩
  | .mapping o entries =>
      obtain ⟨ho, hentries⟩ := Token.from_mapping.mp h
      unfold textual
      exact Token.from_mapping.mpr ⟨ho, from_textualEntries hentries⟩

theorem from_textualItems {items : List Token} (h : ∀ t ∈ items, t.From S) :
    ∀ t ∈ textualItems items, t.From S := by
  match items with
  | [] => exact List.forall_mem_nil _
  | t :: rest =>
      obtain ⟨ht, hrest⟩ := List.forall_mem_cons.mp h
      exact List.forall_mem_cons.mpr ⟨from_textual ht, from_textualItems hrest⟩

theorem from_textualEntries {entries : List (Key × Token)} (h : ∀ e ∈ entries, EntryFrom S e) :
    ∀ e ∈ textualEntries entries, EntryFrom S e := by
  match entries with
  | [] => exact List.forall_mem_nil _
  | (key, t) :: rest =>
      obtain ⟨⟨hkey, ht⟩, hrest⟩ := List.forall_mem_cons.mp h
      exact List.forall_mem_cons.mpr ⟨⟨hkey, from_textual ht⟩, from_textualEntries hrest⟩

end

theorem keeps_readJob {j : Job} (h : j.From S) (he : EntryFrom S e) :
    Keeps S (j.readPlain e) (Job.From S) := by
  obtain ⟨key, value⟩ := e
  obtain ⟨hkey, hvalue⟩ : key.origin.From S ∧ value.From S := he
  dsimp only [Job.readPlain]
  split
  all_goals first
    | exact (hvalue.keeps_expectText _).map fun _ _ => h
    | exact (hvalue.keeps_expectTexts _).map fun _ _ => h
    | exact (keeps_nameOf? hvalue _).map fun _ _ => h
    | exact (keeps_container hvalue).map fun _ _ => h
    | exact (keeps_pool hvalue).map fun _ _ => h
    | exact (keeps_environment hvalue).map fun _ _ => h
    | exact (keeps_uses hvalue).map fun _ _ => h
    | exact (keeps_workspaceOf hvalue).map fun _ _ => h
    | exact keeps_error (hkey.keyFault _)
    | skip
  · refine (hvalue.keeps_expectMapping _).bind fun entries hentries => ?_
    exact (keeps_entries (fun services _ he => keeps_addService services he) _ hentries).map
      fun _ _ => h
  · refine keeps_ok ?_
    rintro t ⟨⟩
    exact from_textual hvalue

theorem keeps_readStage {s : Stage} (h : s.From S) (he : EntryFrom S e) :
    Keeps S (s.readPlain e) (Stage.From S) := by
  obtain ⟨key, value⟩ := e
  obtain ⟨hkey, hvalue⟩ : key.origin.From S ∧ value.From S := he
  have hsame {s' : Stage} (hcontext : s'.templateContext = s.templateContext)
      (hjobs : s'.jobs = s.jobs) : s'.From S := ⟨hcontext ▸ h.templateContext, hjobs ▸ h.jobs⟩
  dsimp only [Stage.readPlain]
  split
  all_goals first
    | exact (hvalue.keeps_expectText _).map fun _ _ => hsame rfl rfl
    | exact (hvalue.keeps_expectTexts _).map fun _ _ => hsame rfl rfl
    | exact (keeps_nameOf? hvalue _).map fun _ _ => hsame rfl rfl
    | exact (keeps_pool hvalue).map fun _ _ => hsame rfl rfl
    | exact keeps_error (hkey.keyFault _)
    | skip
  refine keeps_ok ⟨?_, h.jobs⟩
  rintro t ⟨⟩
  exact from_textual hvalue

/-! ### What is made into tokens -/

theorem from_field {name : String} {f : α → Token} {o : Option α} :
    (∀ p ∈ field name f o, p.2.From S) ↔ ∀ a ∈ o, (f a).From S := by
  cases o <;> simp [field]

@[simp] theorem from_textsToken (texts : List String) : (textsToken texts).From S := by
  simp [textsToken]

@[simp] theorem from_pairsToken (pairs : List (String × String)) : (pairsToken pairs).From S := by
  simp only [pairsToken, Token.from_ofPairs, List.forall_mem_map]
  exact fun p _ => Token.from_ofText p.2

@[simp] theorem from_targetToken (target : Target) : target.toToken.From S := by
  simp only [Target.toToken, Token.from_ofPairs, List.forall_mem_append, from_field]
  refine ⟨⟨?_, ?_⟩, fun names _ => ?_⟩
  · simp
  · simp
  · split <;> simp

@[simp] theorem from_stepToken (s : Step) : s.toToken.From S := by
  simp only [Step.toToken, Token.from_ofPairs, List.forall_mem_append, from_field]
  simp

@[simp] theorem from_stepsToken (steps : List Step) : (stepsToken steps).From S := by
  simp [stepsToken]

@[simp] theorem from_variablesToken (vars : List Variable) : (variablesToken vars).From S := by
  have hvariable (v : Variable) : v.toToken.From S := by
    cases v with
    | value name text readonly => cases readonly <;> simp [Variable.toToken]
    | group name => simp [Variable.toToken]
  simp [variablesToken, hvariable]

@[simp] theorem from_mountsToken (m : Mounts) : m.toToken.From S := by
  simp only [Mounts.toToken, Token.from_ofPairs, List.forall_mem_append, from_field]
  simp

@[simp] theorem from_containerToken (c : Container) : c.toToken.From S := by
  simp only [Container.toToken, Token.from_ofPairs, List.forall_mem_append, from_field]
  simp

@[simp] theorem from_poolToken (p : Pool) : p.toToken.From S := by
  simp only [Pool.toToken, Token.from_ofPairs, List.forall_mem_append, from_field]
  simp

@[simp] theorem from_hookToken (h : Hook) : h.toToken.From S := by
  simp only [Hook.toToken, Token.from_ofPairs, List.forall_mem_append, from_field]
  simp

@[simp] theorem from_hooksToken (h : Hooks) : h.toToken.From S := by
  have houtcomes : ∀ p ∈ field "failure" Hook.toToken h.onFailure ++
      field "success" Hook.toToken h.onSuccess, p.2.From S := by
    simp only [List.forall_mem_append, from_field]
    simp
  simp only [Hooks.toToken, Token.from_ofPairs, List.forall_mem_append, from_field]
  refine ⟨⟨⟨by simp, ?_⟩, by simp⟩, by simp⟩
  split
  · exact List.forall_mem_nil _
  · exact List.forall_mem_singleton.mpr (Token.from_ofPairs.mpr houtcomes)

/-- Named things that are made into tokens. -/
theorem from_ofPairs_map {pairs : List (String × α)} {f : α → Token} (h : ∀ a, (f a).From S) :
    (Token.ofPairs (pairs.map fun (name, a) => (name, f a))).From S :=
  Token.from_ofPairs.mpr (List.forall_mem_map.mpr fun _ _ => h _)

@[simp] theorem from_strategyToken (s : Strategy) : s.toToken.From S := by
  simp only [Strategy.toToken, Token.from_ofPairs, List.forall_mem_append, from_field,
    from_ofPairs_map from_pairsToken]
  simp

@[simp] theorem from_environmentToken (e : Environment) : e.toToken.From S := by
  unfold Environment.toToken
  split <;> simp

@[simp] theorem from_usesToken (u : Uses) : u.toToken.From S := by
  simp only [Uses.toToken, Token.from_ofPairs, List.forall_mem_append, from_field]
  simp

@[simp] theorem from_nameToken (name : Option String) : (nameToken name).From S := by
  cases name <;> simp [nameToken]

theorem Job.From.toToken {j : Job} (h : j.From S) : j.toToken.From S := by
  have hparts : ∀ p ∈ (if j.deployment then field "environment" Environment.toToken j.environment
      else field "steps" stepsToken j.steps), p.2.From S := by
    split
    · exact from_field.mpr fun e _ => from_environmentToken e
    · exact from_field.mpr fun steps _ => from_stepsToken steps
  simp only [Job.toToken, Token.from_ofPairs, List.forall_mem_append, from_field,
    from_ofPairs_map from_containerToken]
  simpa using ⟨h, by simpa using hparts⟩

theorem from_jobsToken {jobs : List Job} (h : ∀ j ∈ jobs, j.From S) : (jobsToken jobs).From S :=
  Token.from_ofItems.mpr (List.forall_mem_map.mpr fun j hj => (h j hj).toToken)

theorem Stage.From.toToken {s : Stage} (h : s.From S) : s.toToken.From S := by
  have hjobs : ∀ jobs ∈ s.jobs, (jobsToken jobs).From S := fun jobs hjobs =>
    from_jobsToken (h.jobs jobs hjobs)
  simp only [Stage.toToken, Token.from_ofPairs, List.forall_mem_append, from_field]
  simpa using ⟨hjobs, h.templateContext⟩

theorem from_stagesToken {stages : List Stage} (h : ∀ s ∈ stages, s.From S) :
    (stagesToken stages).From S :=
  Token.from_ofItems.mpr (List.forall_mem_map.mpr fun s hs => (h s hs).toToken)

/-! ### Parameters -/

theorem keeps_convertScalar {zero : Token} (h : t.From S) (hzero : zero.From S) (kind : String) :
    Keeps S (convertScalar t zero kind) (·.From S) := by
  unfold convertScalar
  split
  · exact keeps_ok hzero
  · split
    · exact keeps_ok h
    · exact keeps_error ((within_meaning _).withSpan h.origin)

theorem keeps_requireDeployment (h : t.From S) (j : Job) :
    Keeps S (requireDeployment t j) fun _ => True := by
  unfold requireDeployment
  split
  · exact keeps_ok trivial
  · exact keeps_error ((within_meaning _).withSpan h.origin)

/-- The default of a declared parameter is from where the declaration is from. -/
def Parameter.From (S : Set Yaml.Span) (p : Parameter) : Prop := p.default.From S

theorem keeps_readParameter {p : Parameter} (h : p.From S) (he : EntryFrom S e) :
    Keeps S (p.read e) (Parameter.From S) := by
  obtain ⟨key, value⟩ := e
  obtain ⟨hkey, hvalue⟩ : key.origin.From S ∧ value.From S := he
  dsimp only [Parameter.read]
  split
  · exact (hvalue.keeps_expectNonEmpty _).map fun _ _ => h
  · exact (hvalue.keeps_expectText _).map fun _ _ => h
  · exact keeps_ok hvalue
  · exact (hvalue.keeps_expectSequence _).map fun _ _ => h
  · exact keeps_ok h
  · exact keeps_error (hkey.keyFault _)

theorem keeps_parameter (h : t.From S) :
    Keeps S (Parameter.ofToken? t) fun named => named.2.From S := by
  refine (h.keeps_expectMapping _).bind fun entries hentries => ?_
  have hnull : Parameter.From S {} := Token.from_ofNull
  have hread : Keeps S (entries.foldlM Parameter.read {}) (Parameter.From S) :=
    keeps_foldlM (fun p e hp (he : EntryFrom S e) => keeps_readParameter hp he) hnull hentries
  refine hread.bind fun p hp => ?_
  split
  · exact keeps_pure hp
  · exact keeps_throw (h.fault _)

theorem keeps_check (p : Parameter) (name : String) (h : t.From S) :
    Keeps S (p.check name t) fun _ => True := by
  unfold Parameter.check
  split
  · exact keeps_ok trivial
  · split
    · exact keeps_ok trivial
    · exact keeps_error ((within_meaning _).withSpan h.origin)

theorem from_provided? {provided : List Entry} {name : String} {value : Token}
    (h : ∀ e ∈ provided, EntryFrom S e) (hvalue : provided? provided name = some value) :
    value.From S := by
  obtain ⟨e, he, rfl⟩ := Option.map_eq_some_iff.mp hvalue
  exact (h e (List.mem_of_find?_eq_some he)).2

theorem keeps_providedOf {values : Option Token} (h : ∀ t ∈ values, t.From S) :
    Keeps S (providedOf values) fun provided => ∀ e ∈ provided, EntryFrom S e := by
  unfold providedOf
  split
  · exact keeps_ok (List.forall_mem_nil _)
  · exact keeps_ok (List.forall_mem_nil _)
  · next t _ => exact (h t rfl).keeps_expectMapping _

theorem keeps_settle (provided : List Entry) {bound : List (String × Token)}
    (h : ∀ b ∈ bound, b.2.From S) : Keeps S (settle provided bound) (·.From S) := by
  unfold settle
  split
  · exact keeps_ok (Token.from_ofPairs.mpr h)
  · exact keeps_error (within_meaning _)

theorem from_bindEntry {provided : List Entry} (h : ∀ e ∈ provided, EntryFrom S e)
    (he : EntryFrom S e) : (bindEntry provided e).2.From S := by
  unfold bindEntry
  cases hvalue : provided? provided e.1.name with
  | none => exact he.2
  | some value => exact from_provided? h hvalue

/-! ### Resources -/

theorem keeps_resourceContainer (h : t.From S) : Keeps S (resourceContainer t) fun _ => True := by
  refine (h.keeps_expectMapping _).bind fun entries hentries => ?_
  split
  · exact keeps_throw (h.fault _)
  · next key value _ =>
    have hvalue : value.From S := (hentries _ List.mem_cons_self).2
    exact (hvalue.keeps_expectNonEmpty _).bind fun _ _ => (keeps_container h).done

/-- Tokens under names are from where they were written. -/
def OtherFrom (S : Set Yaml.Span) (other : Dictionary Token) : Prop := ∀ e ∈ other, e.2.From S

theorem OtherFrom.put {other : Dictionary Token} (h : OtherFrom S other) (kind : String)
    (ht : t.From S) : OtherFrom S (other.put kind t) := by
  intro e he
  rcases Dictionary.mem_put he with rfl | hmem
  · exact ht
  · exact h e hmem

theorem keeps_readResources {r : Resources} (h : OtherFrom S r.other) (he : EntryFrom S e) :
    Keeps S (r.read e) fun r => OtherFrom S r.other := by
  unfold Resources.read
  split
  · refine (he.2.keeps_expectSequence _).bind fun items hitems => ?_
    exact (keeps_mapM (fun t ht => keeps_resourceContainer ht) hitems).map fun _ _ => h
  · exact keeps_ok (h.put _ he.2)

theorem keeps_resources (h : t.From S) :
    Keeps S (Resources.ofToken? t) fun r => OtherFrom S r.other := by
  have hempty : OtherFrom S (Resources.other {}) := List.forall_mem_nil _
  refine (h.keeps_expectMapping _).bind fun entries hentries => ?_
  exact keeps_foldlM (fun r e hr (he : EntryFrom S e) => keeps_readResources hr he) hempty hentries

theorem keeps_repositoryAlias (h : t.From S) : Keeps S (repositoryAlias t) fun _ => True := by
  unfold repositoryAlias
  split
  · exact keeps_ok trivial
  · next aliasName halias =>
    refine ((h.get halias).keeps_expectNonEmpty _).bind fun aliasName _ => ?_
    dsimp only
    split
    on_goal 1 =>
      rename_i name hname
      refine ((h.get hname).keeps_expectNonEmpty _).bind fun name _ => ?_
    -- With a name of its own or without, what is left is the revision.
    all_goals
      split
      · next revision hrevision =>
        split
        · exact keeps_pure trivial
        · exact ((h.get hrevision).keeps_expectText _).done
      · exact keeps_pure trivial

theorem keeps_repositoryAliases (h : t.From S) : Keeps S (repositoryAliases t) fun _ => True := by
  unfold repositoryAliases
  split
  · exact keeps_ok trivial
  · next repositories hrepositories =>
    obtain ⟨resources, hresources, hget⟩ := Option.bind_eq_some_iff.mp hrepositories
    refine (((h.get hresources).get hget).keeps_expectSequence _).bind fun items hitems => ?_
    exact (keeps_mapM (fun t ht => keeps_repositoryAlias ht) hitems).done

/-! ### Extending -/

/-- The parameters of an extension are from where it was written. -/
def Extension.From (S : Set Yaml.Span) (x : Extension) : Prop := ∀ t ∈ x.parameters, t.From S

theorem keeps_readExtension {x : Extension} (h : x.From S) (he : EntryFrom S e) :
    Keeps S (x.read e) (Extension.From S) := by
  unfold Extension.read
  split
  · exact (he.2.keeps_expectNonEmpty _).map fun _ _ => h
  · refine (he.2.keeps_expectMapping _).map fun _ _ => ?_
    rintro t ⟨⟩
    exact he.2
  · exact keeps_error (he.1.keyFault _)

theorem keeps_checkExtensionKeys (h : ∀ e ∈ entries, EntryFrom S e) :
    Keeps S (checkExtensionKeys entries) fun _ => True := by
  unfold checkExtensionKeys
  split
  · next first _ second _ =>
    have hfirst : first.origin.From S := (h _ List.mem_cons_self).1
    have hsecond : second.origin.From S := (h _ (List.mem_cons_of_mem _ List.mem_cons_self)).1
    split
    · exact keeps_error (hfirst.keyFault _)
    · split
      · exact keeps_error (hsecond.keyFault _)
      · exact keeps_ok trivial
  · next third _ _ =>
    have hthird : third.origin.From S :=
      (h _ (List.mem_cons_of_mem _ (List.mem_cons_of_mem _ List.mem_cons_self))).1
    exact keeps_error (hthird.keyFault _)
  · exact keeps_ok trivial

theorem keeps_extensionOf (h : t.From S) :
    Keeps S (extensionOf t) fun x => ∀ t ∈ x.2, t.From S := by
  refine (h.keeps_expectMapping _).bind fun entries hentries => ?_
  refine (keeps_checkExtensionKeys hentries).bind fun _ _ => ?_
  have hnone : Extension.From S {} := by
    rintro t ⟨⟩
  have hread : Keeps S (entries.foldlM Extension.read {}) (Extension.From S) :=
    keeps_foldlM (fun x e hx (he : EntryFrom S e) => keeps_readExtension hx he) hnone hentries
  refine hread.bind fun x hx => ?_
  split
  · exact keeps_pure hx
  · exact keeps_throw (h.fault _)

theorem keeps_addOther {other : Dictionary Token} {entry : String × Token}
    (h : OtherFrom S other) (hentry : entry.2.From S) :
    Keeps S (addOther other entry) (OtherFrom S) := by
  obtain ⟨kind, added⟩ := entry
  dsimp only [addOther]
  split
  · exact keeps_ok (h.put kind hentry)
  · next present hpresent =>
    have hpresent : present.From S := h _ (Dictionary.mem_of_find?_eq_some hpresent)
    refine (hpresent.keeps_expectSequence _).bind fun items hitems => ?_
    refine (hentry.keeps_expectSequence _).map fun more hmore => h.put kind ?_
    exact Token.from_sequence.mpr ⟨hpresent.origin, List.forall_mem_append.mpr ⟨hitems, hmore⟩⟩

theorem keeps_mergeResources {own base : Resources} (hown : OtherFrom S own.other)
    (hbase : OtherFrom S base.other) :
    Keeps S (mergeResources own base) fun r => OtherFrom S r.other :=
  (keeps_foldlM (fun _ e hother (he : e.2.From S) => keeps_addOther hother he) hown hbase).map
    fun _ h => h

/-- The resources that a pipeline keeps as they are written are from where they were written. -/
def From (S : Set Yaml.Span) (p : Pipeline) : Prop := ∀ r ∈ p.resources, OtherFrom S r.other

theorem keeps_merge {p base : Pipeline} (hp : From S p) (hbase : From S base) :
    Keeps S (p.merge base) (From S) := by
  have hown : OtherFrom S (p.resources.getD {}).other := by
    cases hresources : p.resources with
    | none => exact List.forall_mem_nil _
    | some r => exact hp r hresources
  unfold merge
  dsimp only
  split
  on_goal 2 =>
    rename_i r hr
    have hmerged := (keeps_mergeResources hown (hbase r hr)).mapped (f := some)
      (Q := fun resources => ∀ r ∈ resources, OtherFrom S r.other) fun r hr => by
        rintro r' ⟨⟩
        exact hr
    refine hmerged.bind fun resources hresources => ?_
  -- Whatever the resources are, what is left is the variables.
  all_goals
    split
    · exact keeps_throw (within_meaning _)
    · exact keeps_pure ‹_›

theorem from_resolveContainers {p : Pipeline} (h : From S p) : From S p.resolveContainers := by
  unfold resolveContainers
  split <;> exact h

/-- A pipeline that is being read, the one it extends and the entries that are left over are from
where it was written. -/
structure Draft.From (S : Set Yaml.Span) (d : Draft) : Prop where
  pipeline : Pipeline.From S d.pipeline
  base : ∀ p ∈ d.base, Pipeline.From S p
  left : ∀ e ∈ d.left, EntryFrom S e

theorem Draft.From.leftAnd {d : Draft} (h : d.From S) (he : EntryFrom S e) :
    ∀ entry ∈ d.left ++ [e], EntryFrom S entry :=
  List.forall_mem_append.mpr ⟨h.left, List.forall_mem_singleton.mpr he⟩

/-! ### Templates -/

theorem from_withoutParameters (h : t.From S) : (withoutParameters t).From S := by
  unfold withoutParameters
  split
  · obtain ⟨ho, hentries⟩ := Token.from_mapping.mp h
    exact Token.from_mapping.mpr ⟨ho, fun e he => hentries e (List.mem_of_mem_filter he)⟩
  · exact h

theorem keeps_locate (c : Context) (reference : String) :
    Keeps S (c.locate reference) fun _ => True := by
  unfold Context.locate
  split
  · exact keeps_ok trivial
  · split
    · exact keeps_ok trivial
    · split
      · exact keeps_ok trivial
      · exact keeps_error (Template.within_of_none rfl rfl)

end PipelineExpansion.Pipeline
