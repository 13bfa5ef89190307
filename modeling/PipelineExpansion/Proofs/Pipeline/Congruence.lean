import PipelineExpansion.Proofs.Pipeline.Binding
import PipelineExpansion.Proofs.Pipeline.Places
import PipelineExpansion.Proofs.Pipeline.Stage
import PipelineExpansion.Proofs.Template.Evaluation
import PipelineExpansion.Proofs.Template.Resolve

/-!
# Loading twice

What is said of whole loads is often said of two of them: of the same load under other limits, among
other files, or with references that may lead deeper. What the two do is alike at each point where a
load meets its setting, and is the same everywhere else. A `Congruence` is a relation of steps for
which this is enough: it holds of steps that meet nothing, it is kept when steps follow one another and
when the file of a failure is named, and it holds where a template is opened and where it is evaluated.
That the composers, parameters and templates of two loads are related is then proved once, along the
recursion of the composers (`Congruence.load`).

A related pair of steps comes with a property of what the first returns, since what comes next may
depend on it: which spans a token bears (`Token.From`), and which files have been opened. It also comes
with two numbers, how deep references might lead before and behind it. Opening a template is the one
step that takes them a level deeper.

A property of a single load is a relation that disregards one of the two steps.

## Main results

* `Congruence.references`: references that may lead deeper yield what is related.
* `Congruence.load`: a load is related to the same load in another setting.
-/

namespace PipelineExpansion.Template

/-- What a load is done with: the files there are, and limits. -/
structure Setting where
  files : Files
  limits : Limits

/-- A context with the files and the limits of a setting. -/
def Context.under (c : Context) (s : Setting) : Context :=
  { c with files := s.files, limits := s.limits }

end Template

namespace Pipeline

open Template

/-! ### Opening and filling templates -/

/-- Opens the template at a path: reads the file and makes it known. -/
def openTemplate (c : Context) (path : String) : Resolve (Token × Usage) :=
  Resolve.inFile (displayName path c.repository) do
    let content ← Resolve.readFile c.files c.repository path
    let (_, usage) ← Resolve.charged (c.limits.chargeBytes content.utf8ByteSize) {}
    let file ← Resolve.addFile c.limits (displayName path c.repository)
    return (← Resolve.ofExcept (Token.ofText? (some file) content), usage)

/-- Fills a template that was opened with the values of its parameters. -/
def fillTemplate (refs : References) (c : Context) (parameters : Option Token) (definition : String)
    (opened : Token × Usage) : Resolve (Token × Usage) := do
  let (root, usage) := opened
  Resolve.ofExcept (c.schema.validate definition root)
  let bound ← bindParameters refs c (root.get? "parameters") parameters
  let vars ← Resolve.ofExcept (visibleVariables c (root.get? "variables"))
  let names := Token.ofPairs [("parameters", bound), ("variables", vars)]
  Resolve.charged (evaluate c.limits (withoutParameters root) names) usage

theorem inFile_loadTemplate (refs : References) (c : Context) (path : String)
    (parameters : Option Token) (definition : String) :
    Resolve.inFile (displayName path c.repository)
        (loadTemplate refs c path parameters definition) =
      openTemplate c path >>= fun opened =>
        Resolve.inFile (displayName path c.repository)
          (fillTemplate refs c parameters definition opened) := by
  rw [openTemplate, ← Resolve.inFile_bind]
  simp only [bind_assoc, pure_bind]
  rfl

/-! ### Congruences -/

variable {left right : Setting} {S : Set Yaml.Span} {F : Set String} {α β σ τ : Type}
  {P : α → Prop} {Q : β → Prop} {n k m : Nat}

/-- A relation between steps in one setting and steps in another that loads keep, where tokens bear
spans of `S` and opened files have names of `F`. -/
structure Congruence (left right : Setting) (S : Set Yaml.Span) (F : Set String) where
  /-- With how deep references may lead before the steps and behind them, and a property of what the
  first of them returns. -/
  Rel : Nat → Nat → {α : Type} → (α → Prop) → Resolve α → Resolve α → Prop
  /-- A step without effects is related to itself. -/
  read : ∀ {n : Nat} {α : Type} {P : α → Prop} {x : Except Diagnostic α}, Keeps S x P →
    Rel n n P (.ofExcept x) (.ofExcept x)
  bind : ∀ {n k m : Nat} {α β : Type} {P : α → Prop} {Q : β → Prop} {x y : Resolve α}
    {f g : α → Resolve β}, Rel n k P x y → (∀ a, P a → Rel k m Q (f a) (g a)) →
    Rel n m Q (x >>= f) (y >>= g)
  inFile : ∀ {n k : Nat} {α : Type} {P : α → Prop} {x y : Resolve α} {name : String}, name ∈ F →
    Rel n k P x y → Rel n k P (.inFile name x) (.inFile name y)
  note : ∀ {n : Nat} (message : String), Rel n n (fun _ => True) (.note message) (.note message)
  /-- A template is opened alike, and what it refers to is a level deeper. -/
  opening : ∀ {n : Nat} (c : Context) (path : String),
    Rel (n + 1) n (fun opened => opened.1.From S ∧ displayName path c.repository ∈ F)
      (openTemplate (c.under left) path) (openTemplate (c.under right) path)
  /-- A template is evaluated alike. -/
  evaluation : ∀ {n : Nat} {t names : Token} (u : Usage), t.From S → names.From S →
    Rel n n (fun r => r.1.From S) (.charged (evaluate left.limits t names) u)
      (.charged (evaluate right.limits t names) u)
  /-- References that might lead less deep will do. -/
  wider : ∀ {n k : Nat} {α : Type} {P : α → Prop} {x y : Resolve α}, Rel n k P x y →
    Rel n (k + 1) P x y

namespace Congruence

variable {C : Congruence left right S F}

theorem pure {a : α} (h : P a) : C.Rel n n P (pure a) (pure a) := C.read (keeps_ok h)

theorem throw {d : Diagnostic} (h : d.Within S) : C.Rel n n P (throw d) (throw d) :=
  C.read (keeps_error h)

/-- What comes behind a refusal does not matter. -/
theorem refuse {d : Diagnostic} (h : d.Within S) {f g : α → Resolve β} :
    C.Rel n n Q (MonadExcept.throw d >>= f) (MonadExcept.throw d >>= g) :=
  C.bind (P := fun _ => False) (C.throw h) fun _ ha => ha.elim

theorem map {x y : Resolve α} {f : α → β} (h : C.Rel n k P x y) (h' : ∀ a, P a → Q (f a)) :
    C.Rel n k Q (x >>= fun a => Pure.pure (f a)) (y >>= fun a => Pure.pure (f a)) :=
  C.bind h fun a ha => C.pure (h' a ha)

theorem imp {P' : α → Prop} {x y : Resolve α} (h : C.Rel n k P x y) (h' : ∀ a, P a → P' a) :
    C.Rel n k P' x y := by
  have hmap := C.map (f := id) h h'
  simpa only [id, bind_pure] using hmap

theorem foldlM {step step' : σ → τ → Resolve σ} {P : σ → Prop} {Good : τ → Prop}
    (h : ∀ s a, P s → Good a → C.Rel n n P (step s a) (step' s a)) {s : σ} (hs : P s)
    {items : List τ} (hitems : ∀ a ∈ items, Good a) :
    C.Rel n n P (items.foldlM step s) (items.foldlM step' s) := by
  induction items generalizing s with
  | nil => exact C.pure hs
  | cons a rest ih =>
      obtain ⟨ha, hrest⟩ := List.forall_mem_cons.mp hitems
      rw [List.foldlM_cons, List.foldlM_cons]
      exact C.bind (h s a hs ha) fun s' hs' => ih hs' hrest

theorem forM {check check' : τ → Resolve PUnit}
    (h : ∀ a, C.Rel n n (fun _ => True) (check a) (check' a)) {items : List τ} :
    C.Rel n n (fun _ => True) (items.forM check) (items.forM check') := by
  simp only [List.forM_eq_forM]
  induction items with
  | nil => exact C.pure trivial
  | cons a rest ih =>
      rw [List.forM_cons, List.forM_cons]
      exact C.bind (h a) fun _ _ => ih

/-- What items give is collected alike. -/
theorem collects {read read' : τ → Resolve (List α)} {all all' : List τ → Resolve (List α)}
    (hall : Resolve.Collects read all) (hall' : Resolve.Collects read' all') {Good : τ → Prop}
    (h : ∀ t, Good t → C.Rel n n (fun as => ∀ a ∈ as, P a) (read t) (read' t)) {items : List τ}
    (hitems : ∀ t ∈ items, Good t) :
    C.Rel n n (fun as => ∀ a ∈ as, P a) (all items) (all' items) := by
  induction items with
  | nil =>
      rw [hall.nil, hall'.nil]
      exact C.pure (List.forall_mem_nil _)
  | cons t rest ih =>
      obtain ⟨ht, hrest⟩ := List.forall_mem_cons.mp hitems
      rw [hall.cons, hall'.cons]
      refine C.bind (h t ht) fun own hown => C.bind (ih hrest) fun others hothers => ?_
      exact C.pure (List.forall_mem_append.mpr ⟨hown, hothers⟩)

/-- References that yield alike, where they may lead `n` deep. -/
structure Related (C : Congruence left right S F) (n : Nat) (refs refs' : References) : Prop where
  steps : ∀ (c : Context) (reference : String) {parameters : Option Token},
    (∀ t ∈ parameters, t.From S) → C.Rel n n (fun _ => True)
      (refs.steps (c.under left) reference parameters)
      (refs'.steps (c.under right) reference parameters)
  jobs : ∀ (c : Context) (reference : String) {parameters : Option Token},
    (∀ t ∈ parameters, t.From S) → C.Rel n n (fun jobs => ∀ j ∈ jobs, j.From S)
      (refs.jobs (c.under left) reference parameters)
      (refs'.jobs (c.under right) reference parameters)
  stages : ∀ (c : Context) (reference : String) {parameters : Option Token},
    (∀ t ∈ parameters, t.From S) → C.Rel n n (fun stages => ∀ s ∈ stages, s.From S)
      (refs.stages (c.under left) reference parameters)
      (refs'.stages (c.under right) reference parameters)
  vars : ∀ (c : Context) (vars : List Variable) (reference : String) {parameters : Option Token},
    (∀ t ∈ parameters, t.From S) → C.Rel n n (fun _ => True)
      (refs.vars (c.under left) vars reference parameters)
      (refs'.vars (c.under right) vars reference parameters)
  pipeline : ∀ (c : Context) (reference : String) {parameters : Option Token},
    (∀ t ∈ parameters, t.From S) → C.Rel n n (From S)
      (refs.pipeline (c.under left) reference parameters)
      (refs'.pipeline (c.under right) reference parameters)

/-! ### Composers -/

section Composers

variable {refs refs' : References} {t : Token} {e : Entry}

/-- Fields are read alike, one after another, from the entries of a mapping. -/
theorem fields {read read' : α → Entry → Resolve α} (ht : t.From S) (what : String)
    (hread : ∀ a e, P a → EntryFrom S e → C.Rel n n P (read a e) (read' a e)) {a : α} (ha : P a) :
    C.Rel n n P (do (← Resolve.ofExcept (t.expectMapping what)).foldlM read a)
      (do (← Resolve.ofExcept (t.expectMapping what)).foldlM read' a) :=
  C.bind (C.read (ht.keeps_expectMapping what)) fun _ hentries => C.foldlM hread ha hentries

theorem stepsOfItem (h : C.Related n refs refs') (c : Context) (ht : t.From S) :
    C.Rel n n (fun _ => True) (Pipeline.stepsOfItem refs (c.under left) t)
      (Pipeline.stepsOfItem refs' (c.under right) t) := by
  refine C.bind (C.read (ht.keeps_expectMapping _)) fun entries hentries => ?_
  split
  · exact C.throw (ht.fault _)
  · next key value rest =>
    obtain ⟨⟨hkey, hvalue⟩, hrest⟩ := List.forall_mem_cons.mp hentries
    split
    · refine C.bind (C.read (hvalue.keeps_expectNonEmpty _)) fun path _ => ?_
      refine C.bind (C.read (keeps_templateParameters hrest)) fun parameters hparameters => ?_
      exact h.steps c path hparameters
    · exact C.map (C.read (keeps_stepOfEntries c hkey hvalue hrest)) fun _ _ => trivial

theorem stepsOfItems (h : C.Related n refs refs') (c : Context) {items : List Token}
    (hitems : ∀ t ∈ items, t.From S) :
    C.Rel n n (fun _ => True) (Pipeline.stepsOfItems refs (c.under left) items)
      (Pipeline.stepsOfItems refs' (c.under right) items) := by
  have hitem (t : Token) (ht : t.From S) : C.Rel n n (fun steps => ∀ s ∈ steps, True)
      (Pipeline.stepsOfItem refs (c.under left) t) (Pipeline.stepsOfItem refs' (c.under right) t) :=
    C.imp (C.stepsOfItem h c ht) fun _ _ _ _ => trivial
  have hall := C.collects (collects_stepsOfItems refs (c.under left))
    (collects_stepsOfItems refs' (c.under right)) hitem hitems
  exact C.imp hall fun _ _ => trivial

theorem stepList (h : C.Related n refs refs') (c : Context) (ht : t.From S) :
    C.Rel n n (fun _ => True) (Pipeline.stepList refs (c.under left) t)
      (Pipeline.stepList refs' (c.under right) t) := by
  unfold Pipeline.stepList
  split
  · exact C.pure trivial
  · exact C.bind (C.read (ht.keeps_expectSequence _)) fun items hitems => C.stepsOfItems h c hitems

theorem addVariableItem (h : C.Related n refs refs') (c : Context) (vars : List Variable)
    (ht : t.From S) :
    C.Rel n n (fun _ => True) (Pipeline.addVariableItem refs (c.under left) vars t)
      (Pipeline.addVariableItem refs' (c.under right) vars t) := by
  have hnone : VariableItem.From S {} := by
    rintro t ⟨⟩
  refine C.bind (C.read (ht.keeps_expectMapping _)) fun entries hentries => ?_
  refine C.bind (C.read (keeps_foldlM
    (fun item e hitem (he : EntryFrom S e) => keeps_readVariableItem hitem he) hnone hentries))
    fun item hitem => ?_
  split
  · exact C.pure trivial
  · exact h.vars c vars _ hitem
  · exact C.pure trivial
  · exact C.throw (ht.fault _)

theorem addVariables (h : C.Related n refs refs') (c : Context) (vars : List Variable)
    (ht : t.From S) :
    C.Rel n n (fun _ => True) (Pipeline.addVariables refs (c.under left) vars t)
      (Pipeline.addVariables refs' (c.under right) vars t) := by
  unfold Pipeline.addVariables
  split
  · exact C.pure trivial
  · exact C.read (keeps_entries (fun vars _ he => keeps_addVariableEntry vars he) _
      (Token.from_mapping.mp ht).2)
  · refine C.bind (C.read (ht.keeps_expectSequence _)) fun items hitems => ?_
    exact C.foldlM (fun vars t _ (ht : t.From S) => C.addVariableItem h c vars ht) trivial hitems

/-! ### Rollouts -/

theorem readHook (h : C.Related n refs refs') (c : Context) (hook : Hook) (he : EntryFrom S e) :
    C.Rel n n (fun _ => True) (hook.read refs (c.under left) e)
      (hook.read refs' (c.under right) e) := by
  unfold Hook.read
  split
  · exact C.map (C.stepList h c he.2) fun _ _ => trivial
  · exact C.map (C.read (keeps_pool he.2)) fun _ _ => trivial
  · exact C.pure trivial

theorem hook (h : C.Related n refs refs') (c : Context) (ht : t.From S) :
    C.Rel n n (fun _ => True) (Hook.ofToken? refs (c.under left) t)
      (Hook.ofToken? refs' (c.under right) t) :=
  C.fields ht _ (fun hook _ _ he => C.readHook h c hook he) trivial

theorem readOutcome (h : C.Related n refs refs') (c : Context) (hooks : Hooks)
    (he : EntryFrom S e) :
    C.Rel n n (fun _ => True) (hooks.readOutcome refs (c.under left) e)
      (hooks.readOutcome refs' (c.under right) e) := by
  unfold Hooks.readOutcome
  split
  · exact C.map (C.hook h c he.2) fun _ _ => trivial
  · exact C.map (C.hook h c he.2) fun _ _ => trivial
  · exact C.pure trivial

theorem readHooks (h : C.Related n refs refs') (c : Context) (hooks : Hooks)
    (he : EntryFrom S e) :
    C.Rel n n (fun _ => True) (hooks.read refs (c.under left) e)
      (hooks.read refs' (c.under right) e) := by
  unfold Hooks.read
  split
  · exact C.map (C.hook h c he.2) fun _ _ => trivial
  · exact C.map (C.hook h c he.2) fun _ _ => trivial
  · exact C.map (C.hook h c he.2) fun _ _ => trivial
  · exact C.map (C.hook h c he.2) fun _ _ => trivial
  · exact C.fields he.2 _ (fun hooks _ _ he => C.readOutcome h c hooks he) trivial
  · exact C.pure trivial

theorem hooks (h : C.Related n refs refs') (c : Context) (ht : t.From S) :
    C.Rel n n (fun _ => True) (Hooks.ofToken? refs (c.under left) t)
      (Hooks.ofToken? refs' (c.under right) t) :=
  C.fields ht _ (fun hooks _ _ he => C.readHooks h c hooks he) trivial

theorem readForDeployment (h : C.Related n refs refs') (c : Context) (s : Strategy)
    (he : EntryFrom S e) :
    C.Rel n n (fun _ => True) (s.readForDeployment refs (c.under left) e)
      (s.readForDeployment refs' (c.under right) e) := by
  obtain ⟨key, value⟩ := e
  have hvalue : value.From S := he.2
  dsimp only [Strategy.readForDeployment]
  split
  · exact C.map (C.hooks h c hvalue) fun _ _ => trivial
  · refine C.bind (C.hooks h c hvalue) fun hooks _ => ?_
    exact C.map (C.read (keeps_parallelOf hvalue)) fun _ _ => trivial
  · refine C.bind (C.hooks h c hvalue) fun hooks _ => ?_
    exact C.map (C.read (keeps_incrementsOf hvalue)) fun _ _ => trivial
  · exact C.pure trivial

theorem strategy (h : C.Related n refs refs') (c : Context) (ht : t.From S) (deployment : Bool) :
    C.Rel n n (fun _ => True) (Strategy.ofToken? refs (c.under left) t deployment)
      (Strategy.ofToken? refs' (c.under right) t deployment) := by
  refine C.bind (C.read (ht.keeps_expectMapping _)) fun entries hentries => ?_
  split
  · exact C.foldlM (fun s e _ (he : EntryFrom S e) => C.readForDeployment h c s he) trivial hentries
  · exact C.read (keeps_entries (fun s _ he => keeps_readForJob s he) _ hentries)

/-! ### Jobs and stages -/

theorem readJobDraft (h : C.Related n refs refs') (c : Context) {d : JobDraft} (hd : d.From S)
    (he : EntryFrom S e) :
    C.Rel n n (JobDraft.From S) (d.read refs (c.under left) e) (d.read refs' (c.under right) e) := by
  unfold JobDraft.read
  split
  · refine C.pure ⟨hd.job, ?_⟩
    rintro t ⟨⟩
    exact he.2
  · exact C.map (C.addVariables h c [] he.2) fun _ _ => ⟨hd.job, hd.strategy⟩
  · exact C.map (C.stepList h c he.2) fun _ _ => ⟨hd.job, hd.strategy⟩
  · exact C.map (C.read (keeps_readJob hd.job he)) fun _ hjob => ⟨hjob, hd.strategy⟩

theorem job (h : C.Related n refs refs') (c : Context) (ht : t.From S) (implicit : Bool) :
    C.Rel n n (Job.From S) (Job.ofToken? refs (c.under left) t implicit)
      (Job.ofToken? refs' (c.under right) t implicit) := by
  have hempty : JobDraft.From S {} := by
    constructor <;> rintro t ⟨⟩
  refine C.bind (C.read (ht.keeps_expectMapping _)) fun entries hentries => ?_
  have hdraft := C.foldlM (fun d e hd (he : EntryFrom S e) => C.readJobDraft h c hd he) hempty
    hentries
  split
  · exact C.refuse (ht.fault _)
  · refine C.bind hdraft fun d hd => ?_
    split
    · exact C.pure hd.job
    · next strategy hstrategy =>
      exact C.map (C.strategy h c (hd.strategy strategy hstrategy) _) fun _ _ => hd.job

theorem jobsOfItem (h : C.Related n refs refs') (c : Context) (ht : t.From S) :
    C.Rel n n (fun jobs => ∀ j ∈ jobs, j.From S) (Pipeline.jobsOfItem refs (c.under left) t)
      (Pipeline.jobsOfItem refs' (c.under right) t) := by
  refine C.bind (C.read (ht.keeps_expectMapping _)) fun entries hentries => ?_
  split
  · next path rest hreference =>
    obtain ⟨hpath, hrest⟩ := from_templateReference? hentries hreference
    refine C.bind (C.read (hpath.keeps_expectNonEmpty _)) fun path _ => ?_
    refine C.bind (C.read (keeps_templateParameters hrest)) fun parameters hparameters => ?_
    exact h.jobs c path hparameters
  · exact C.map (C.job h c ht false) fun _ hj => List.forall_mem_singleton.mpr hj

theorem jobList (h : C.Related n refs refs') (c : Context) (ht : t.From S) :
    C.Rel n n (fun jobs => ∀ j ∈ jobs, j.From S) (Pipeline.jobList refs (c.under left) t)
      (Pipeline.jobList refs' (c.under right) t) := by
  unfold Pipeline.jobList
  split
  · exact C.pure (List.forall_mem_nil _)
  · refine C.bind (C.read (ht.keeps_expectSequence _)) fun items hitems => ?_
    exact C.collects (collects_jobsOfItems refs (c.under left))
      (collects_jobsOfItems refs' (c.under right)) (fun t ht => C.jobsOfItem h c ht) hitems

theorem readStage (h : C.Related n refs refs') (c : Context) {s : Stage} (hs : s.From S)
    (he : EntryFrom S e) :
    C.Rel n n (Stage.From S) (s.read refs (c.under left) e) (s.read refs' (c.under right) e) := by
  unfold Stage.read
  split
  · exact C.map (C.addVariables h c [] he.2) fun _ _ => ⟨hs.templateContext, hs.jobs⟩
  · refine C.map (C.jobList h c he.2) fun jobs hjobs => ⟨hs.templateContext, ?_⟩
    rintro jobs' ⟨⟩
    exact hjobs
  · exact C.read (keeps_readStage hs he)

theorem stage (h : C.Related n refs refs') (c : Context) (ht : t.From S) (implicit : Bool) :
    C.Rel n n (Stage.From S) (Stage.ofToken? refs (c.under left) t implicit)
      (Stage.ofToken? refs' (c.under right) t implicit) := by
  have hempty : Stage.From S {} := by
    constructor <;> rintro t ⟨⟩
  refine C.bind (C.read (ht.keeps_expectMapping _)) fun entries hentries => ?_
  split
  · exact C.refuse (ht.fault _)
  · exact C.foldlM (fun s e hs (he : EntryFrom S e) => C.readStage h c hs he) hempty hentries

theorem stagesOfItem (h : C.Related n refs refs') (c : Context) (ht : t.From S) :
    C.Rel n n (fun stages => ∀ s ∈ stages, s.From S) (Pipeline.stagesOfItem refs (c.under left) t)
      (Pipeline.stagesOfItem refs' (c.under right) t) := by
  refine C.bind (C.read (ht.keeps_expectMapping _)) fun entries hentries => ?_
  split
  · next path rest hreference =>
    obtain ⟨hpath, hrest⟩ := from_templateReference? hentries hreference
    refine C.bind (C.read (hpath.keeps_expectNonEmpty _)) fun path _ => ?_
    refine C.bind (C.read (keeps_templateParameters hrest)) fun parameters hparameters => ?_
    exact h.stages c path hparameters
  · exact C.map (C.stage h c ht false) fun _ hs => List.forall_mem_singleton.mpr hs

theorem stageList (h : C.Related n refs refs') (c : Context) (ht : t.From S) :
    C.Rel n n (fun stages => ∀ s ∈ stages, s.From S) (Pipeline.stageList refs (c.under left) t)
      (Pipeline.stageList refs' (c.under right) t) := by
  unfold Pipeline.stageList
  split
  · exact C.pure (List.forall_mem_nil _)
  · refine C.bind (C.read (ht.keeps_expectSequence _)) fun items hitems => ?_
    exact C.collects (collects_stagesOfItems refs (c.under left))
      (collects_stagesOfItems refs' (c.under right)) (fun t ht => C.stagesOfItem h c ht) hitems

/-! ### Parameters -/

theorem convertTo (h : C.Related n refs refs') (c : Context) (ht : t.From S) (type : ParameterType) :
    C.Rel n n (·.From S) (Pipeline.convertTo refs (c.under left) t type)
      (Pipeline.convertTo refs' (c.under right) t type) := by
  cases type with
  | object => exact C.pure ht
  | boolean => exact C.read (keeps_convertScalar ht (Token.from_ofBool _) _)
  | number => exact C.read (keeps_convertScalar ht (Token.from_ofInt _) _)
  | string => exact C.read (keeps_convertScalar ht (Token.from_ofText _) _)
  | step =>
      dsimp only [Pipeline.convertTo]
      split
      · exact C.pure Token.from_ofNull
      · refine C.bind (C.stepsOfItem h c ht) fun steps _ => ?_
        split
        · exact C.pure (from_stepToken _)
        · exact C.pure Token.from_ofNull
  | stepList => exact C.map (C.stepList h c ht) fun steps _ => from_stepsToken steps
  | job =>
      dsimp only [Pipeline.convertTo]
      split
      · exact C.pure Token.from_ofNull
      · exact C.map (C.job h c ht false) fun j hj => hj.toToken
  | jobList => exact C.map (C.jobList h c ht) fun jobs hjobs => from_jobsToken hjobs
  | deployment =>
      dsimp only [Pipeline.convertTo]
      split
      · exact C.pure Token.from_ofNull
      · refine C.bind (C.job h c ht false) fun j hj => ?_
        exact C.map (C.read (keeps_requireDeployment ht j)) fun _ _ => hj.toToken
  | deploymentList =>
      refine C.bind (C.jobList h c ht) fun jobs hjobs => ?_
      exact C.map (C.forM fun j => C.read (keeps_requireDeployment ht j)) fun _ _ =>
        from_jobsToken hjobs
  | stage =>
      dsimp only [Pipeline.convertTo]
      split
      · exact C.pure Token.from_ofNull
      · exact C.map (C.stage h c ht false) fun s hs => hs.toToken
  | stageList => exact C.map (C.stageList h c ht) fun stages hstages => from_stagesToken hstages

theorem convert (h : C.Related n refs refs') (c : Context) (ht : t.From S) (type : String) :
    C.Rel n n (·.From S) (Pipeline.convert refs (c.under left) t type)
      (Pipeline.convert refs' (c.under right) t type) := by
  unfold Pipeline.convert
  split
  · exact C.pure ht
  · exact C.map (C.convertTo h c ht _) fun value hvalue => hvalue.locatedAt ht.origin
  · exact C.throw ((within_meaning _).withSpan ht.origin)

theorem bindDeclared (h : C.Related n refs refs') (c : Context) {provided : List Entry}
    (hprovided : ∀ e ∈ provided, EntryFrom S e) (ht : t.From S) :
    C.Rel n n (fun b => b.2.From S) (Pipeline.bindDeclared refs (c.under left) provided t)
      (Pipeline.bindDeclared refs' (c.under right) provided t) := by
  refine C.bind (C.read (keeps_parameter ht)) ?_
  rintro ⟨name, p⟩ hp
  refine C.bind (C.convert h c hp p.type) fun default hdefault => ?_
  have hcheck {value : Token} (hvalue : value.From S) :=
    C.map (f := fun _ => (name, value)) (Q := fun b => b.2.From S)
      (C.read (n := n) (keeps_check p name hvalue)) fun _ _ => hvalue
  dsimp only
  split
  · next given hgiven =>
    have hgiven := from_provided? hprovided hgiven
    exact C.bind (C.convert h c hgiven p.type) fun value hvalue => hcheck hvalue
  · exact C.bind (C.pure hdefault) fun value hvalue => hcheck hvalue

theorem bindAll (h : C.Related n refs refs') (c : Context) {provided : List Entry}
    (hprovided : ∀ e ∈ provided, EntryFrom S e) {items : List Token}
    (hitems : ∀ t ∈ items, t.From S) :
    C.Rel n n (fun bs => ∀ b ∈ bs, b.2.From S)
      (Pipeline.bindAll refs (c.under left) provided items)
      (Pipeline.bindAll refs' (c.under right) provided items) := by
  induction items with
  | nil => exact C.pure (List.forall_mem_nil _)
  | cons t rest ih =>
      obtain ⟨ht, hrest⟩ := List.forall_mem_cons.mp hitems
      unfold Pipeline.bindAll
      refine C.bind (C.bindDeclared h c hprovided ht) fun own hown => ?_
      exact C.map (ih hrest) fun others hothers => List.forall_mem_cons.mpr ⟨hown, hothers⟩

theorem bindDeclaration (h : C.Related n refs refs') (c : Context) {provided : List Entry}
    (hprovided : ∀ e ∈ provided, EntryFrom S e) {declared : Option Token}
    (hdeclared : ∀ t ∈ declared, t.From S) :
    C.Rel n n (fun bs => ∀ b ∈ bs, b.2.From S)
      (Pipeline.bindDeclaration refs (c.under left) provided declared)
      (Pipeline.bindDeclaration refs' (c.under right) provided declared) := by
  unfold Pipeline.bindDeclaration
  split
  · exact C.pure (List.forall_mem_nil _)
  · exact C.pure (List.forall_mem_nil _)
  · next o entries =>
    have hentries := (Token.from_mapping.mp (hdeclared _ rfl)).2
    refine C.pure (List.forall_mem_map.mpr fun e he => ?_)
    exact from_bindEntry hprovided (hentries e he)
  · next t _ _ =>
    refine C.bind (C.read ((hdeclared t rfl).keeps_expectSequence _)) fun items hitems => ?_
    exact C.bindAll h c hprovided hitems

theorem bindParameters (h : C.Related n refs refs') (c : Context) {declared values : Option Token}
    (hdeclared : ∀ t ∈ declared, t.From S) (hvalues : ∀ t ∈ values, t.From S) :
    C.Rel n n (·.From S) (Pipeline.bindParameters refs (c.under left) declared values)
      (Pipeline.bindParameters refs' (c.under right) declared values) := by
  rw [bindParameters_eq, bindParameters_eq]
  refine C.bind (C.read (keeps_providedOf hvalues)) fun provided hprovided => ?_
  refine C.bind (C.bindDeclaration h c hprovided hdeclared) fun bound hbound => ?_
  exact C.read (keeps_settle provided hbound)

/-! ### Templates -/

theorem fillTemplate (h : C.Related n refs refs') (c : Context) {parameters : Option Token}
    (hparameters : ∀ t ∈ parameters, t.From S) (definition : String) {opened : Token × Usage}
    (hopened : opened.1.From S) :
    C.Rel n n (fun filled => filled.1.From S)
      (Pipeline.fillTemplate refs (c.under left) parameters definition opened)
      (Pipeline.fillTemplate refs' (c.under right) parameters definition opened) := by
  obtain ⟨root, usage⟩ := opened
  have hroot : root.From S := hopened
  refine C.bind (C.read (hroot.keeps_validate _ _)) fun _ _ => ?_
  refine C.bind (C.bindParameters h c (fun t ht => hroot.get ht) hparameters) fun bound hbound => ?_
  refine C.bind (C.read (keeps_visibleVariables c fun t ht => hroot.get ht)) fun vars hvars => ?_
  have hnames : (Token.ofPairs [("parameters", bound), ("variables", vars)]).From S := by
    simp [hbound, hvars]
  exact C.evaluation usage (from_withoutParameters hroot) hnames

/-- What is done with a template that was read is done in the context of the template. -/
theorem withTemplate (h : C.Related n refs refs') (c : Context) (reference : String)
    {parameters : Option Token} (hparameters : ∀ t ∈ parameters, t.From S) (definition : String)
    {f g : Loaded → Resolve β}
    (hf : ∀ (loaded : Loaded) (c : Context), loaded.token.From S → loaded.name ∈ F →
      C.Rel n n Q (f { loaded with context := c.under left })
        (g { loaded with context := c.under right })) :
    C.Rel (n + 1) n Q (readTemplate refs (c.under left) reference parameters definition >>= f)
      (readTemplate refs' (c.under right) reference parameters definition >>= g) := by
  simp only [readTemplate, bind_assoc, pure_bind]
  refine C.bind (C.read (keeps_locate c reference)) ?_
  rintro ⟨path, repository⟩ -
  refine C.bind (C.note _) fun _ _ => ?_
  -- Opening is taken out of the load, since it alone leads a level deeper.
  have hload (refs : References) (c : Context) :
      Resolve.inFile (displayName path repository)
          (loadTemplate refs (c.child path repository) path parameters definition) =
        openTemplate (c.child path repository) path >>= fun opened =>
          Resolve.inFile (displayName path repository)
            (Pipeline.fillTemplate refs (c.child path repository) parameters definition opened) :=
    inFile_loadTemplate refs (c.child path repository) path parameters definition
  simp only [hload, bind_assoc]
  refine C.bind (C.opening (c.child path repository) path) fun opened hopened => ?_
  refine C.bind (C.inFile hopened.2
    (C.fillTemplate h (c.child path repository) hparameters definition hopened.1)) ?_
  rintro ⟨token, usage⟩ htoken
  exact hf ⟨token, c.child path repository, displayName path repository, usage⟩
    (c.child path repository) htoken hopened.2

/-- A section of a template that was read is composed in the context of the template. -/
theorem withSection (h : C.Related n refs refs') (c : Context) (reference : String)
    {parameters : Option Token} (hparameters : ∀ t ∈ parameters, t.From S) {definition key : String}
    {absent : α} (habsent : P absent) {compose compose' : Loaded → Context → Token → Resolve α}
    (hcompose : ∀ (loaded : Loaded) (c : Context) (t : Token), loaded.name ∈ F → t.From S →
      C.Rel n n P (compose { loaded with context := c.under left } (c.under left) t)
        (compose' { loaded with context := c.under right } (c.under right) t)) :
    C.Rel (n + 1) n P
      (do
        let loaded ← readTemplate refs (c.under left) reference parameters definition
        Pipeline.withSection loaded key absent (compose loaded))
      (do
        let loaded ← readTemplate refs' (c.under right) reference parameters definition
        Pipeline.withSection loaded key absent (compose' loaded)) := by
  refine C.withTemplate h c reference hparameters definition fun loaded c htoken hname => ?_
  dsimp only [Pipeline.withSection]
  split
  · exact C.pure habsent
  · next t ht => exact hcompose loaded c t hname (htoken.get ht)

/-! ### Pipelines -/

theorem readDraft (h : C.Related n refs refs') (c : Context) {d : Draft} (hd : d.From S)
    (he : EntryFrom S e) :
    C.Rel n n (Draft.From S) (d.read refs (c.under left) e) (d.read refs' (c.under right) e) := by
  obtain ⟨key, value⟩ := e
  have hvalue : value.From S := he.2
  dsimp only [Draft.read]
  split
  · exact C.map (C.read (keeps_nameOf? hvalue _)) fun _ _ => ⟨hd.pipeline, hd.base, hd.left⟩
  · exact C.pure hd
  · exact C.map (C.addVariables h c [] hvalue) fun _ _ => ⟨hd.pipeline, hd.base, hd.left⟩
  · refine C.bind (C.read (keeps_extensionOf hvalue)) ?_
    rintro ⟨template, parameters⟩ hparameters
    refine C.map (h.pipeline c template hparameters) fun base hbase => ⟨hd.pipeline, ?_, hd.left⟩
    rintro base' ⟨⟩
    exact hbase
  · exact C.map (C.stageList h c hvalue) fun _ _ => ⟨hd.pipeline, hd.base, hd.left⟩
  · exact C.pure ⟨hd.pipeline, hd.base, hd.leftAnd he⟩
  · exact C.pure ⟨hd.pipeline, hd.base, hd.leftAnd he⟩
  · refine C.map (C.read (keeps_resources hvalue)) fun r hr => ⟨?_, hd.base, hd.left⟩
    rintro r' ⟨⟩
    exact hr
  · exact C.map (C.read (keeps_pool hvalue)) fun _ _ => ⟨hd.pipeline, hd.base, hd.left⟩
  · exact C.map (C.read (hvalue.keeps_expectBool _)) fun _ _ => ⟨hd.pipeline, hd.base, hd.left⟩
  · exact C.map (C.read (hvalue.keeps_expectText _)) fun _ _ => ⟨hd.pipeline, hd.base, hd.left⟩
  · exact C.pure ⟨hd.pipeline, hd.base, hd.left⟩
  · exact C.pure ⟨hd.pipeline, hd.base, hd.left⟩
  · exact C.pure ⟨hd.pipeline, hd.base, hd.left⟩
  · exact C.pure ⟨hd.pipeline, hd.base, hd.leftAnd he⟩

theorem implicitStages (h : C.Related n refs refs') (c : Context) {d : Draft} (hd : d.From S)
    {o : Origin} (ho : o.From S) :
    C.Rel n n (fun _ => True) (d.implicitStages refs (c.under left) o)
      (d.implicitStages refs' (c.under right) o) := by
  have hrest : (Token.mapping o d.left).From S := Token.from_mapping.mpr ⟨ho, hd.left⟩
  dsimp only [Draft.implicitStages]
  split
  · exact C.pure trivial
  · exact C.map (C.job h c hrest true) fun _ _ => trivial
  · exact C.map (C.stage h c hrest true) fun _ _ => trivial

theorem root (h : C.Related n refs refs') (c : Context) (ht : t.From S) :
    C.Rel n n (From S) (ofToken? refs (c.under left) t) (ofToken? refs' (c.under right) t) := by
  have hempty : Draft.From S {} := by
    refine ⟨?_, ?_, List.forall_mem_nil _⟩ <;> rintro t ⟨⟩
  refine C.bind (C.read (ht.keeps_expectMapping _)) fun entries hentries => ?_
  have hdraft := C.foldlM (fun d e hd (he : EntryFrom S e) => C.readDraft h c hd he) hempty hentries
  refine C.bind hdraft fun d hd => ?_
  refine C.bind (C.implicitStages h c hd ht.origin) fun stages _ => ?_
  split
  · exact C.pure (from_resolveContainers hd.pipeline)
  · next base hbase =>
    refine C.map (C.read (keeps_merge ?_ (hd.base base hbase))) fun p hp => from_resolveContainers hp
    exact hd.pipeline

theorem pipelineOf (h : C.Related n refs refs') (c : Context) (reference : String)
    {parameters : Option Token} (hparameters : ∀ t ∈ parameters, t.From S) (definition : String) :
    C.Rel (n + 1) n (From S)
      (Pipeline.pipelineOf refs (c.under left) reference parameters definition)
      (Pipeline.pipelineOf refs' (c.under right) reference parameters definition) := by
  refine C.withTemplate h c reference hparameters definition fun loaded c htoken hname => ?_
  have haliases := keeps_repositoryAliases htoken
  have hown (s : Setting) :
      Resolve.ofExcept (withOwnRepositories { loaded with context := c.under s }) =
        Resolve.ofExcept (repositoryAliases loaded.token) >>= fun aliases =>
          Pure.pure ((c.withRepositories aliases).under s) := by
    unfold withOwnRepositories
    cases repositoryAliases loaded.token <;> rfl
  simp only [hown, bind_assoc, pure_bind]
  refine C.bind (C.read haliases) fun aliases _ => ?_
  exact C.inFile hname (C.root h (c.withRepositories aliases) htoken)

/-- References that may not be followed are related to any, if what leads too deep is. -/
theorem related_none (h : ∀ {α : Type} {P : α → Prop} (y : Resolve α), C.Rel 0 0 P .unfinished y)
    (refs : References) : C.Related 0 .none refs where
  steps _ _ _ _ := h _
  jobs _ _ _ _ := h _
  stages _ _ _ _ := h _
  vars _ _ _ _ _ := h _
  pipeline _ _ _ _ := h _

/-- **What references yield, they yield alike**, if they do so where they may lead no deeper. -/
theorem references (C : Congruence left right S F) {depth : Nat}
    (h : C.Related 0 .none (Pipeline.references depth)) (n : Nat) :
    C.Related n (Pipeline.references n) (Pipeline.references (n + depth)) := by
  induction n with
  | zero => rwa [Nat.zero_add]
  | succ n ih =>
      -- What a template refers to is a level deeper than the reference to it, so `ih` applies there.
      rw [Nat.succ_add]
      exact {
        steps := fun c reference parameters hparameters => C.wider <|
          C.withSection ih c reference hparameters trivial fun loaded c t hname ht =>
            C.bind (C.read (ht.keeps_expectSequence _)) fun items hitems =>
              C.inFile hname (C.stepsOfItems ih c hitems)
        jobs := fun c reference parameters hparameters => C.wider <|
          C.withSection ih c reference hparameters (List.forall_mem_nil _) fun loaded c t hname ht =>
            C.inFile hname (C.jobList ih c ht)
        stages := fun c reference parameters hparameters => C.wider <|
          C.withSection ih c reference hparameters (List.forall_mem_nil _) fun loaded c t hname ht =>
            C.inFile hname (C.stageList ih c ht)
        vars := fun c vars reference parameters hparameters => C.wider <|
          C.withSection ih c reference hparameters trivial fun loaded c t hname ht =>
            C.inFile hname (C.addVariables ih c vars ht)
        pipeline := fun c reference parameters hparameters => C.wider <|
          C.pipelineOf ih c reference hparameters _ }

/-- **A load is related to the same load in another setting**, to any depth. -/
theorem load (C : Congruence left right S F)
    (hnone : ∀ {α : Type} {P : α → Prop}, C.Rel 0 0 P .unfinished .unfinished) (depth : Nat)
    (c : Context) (path : String) {parameters : Option Token}
    (hparameters : ∀ t ∈ parameters, t.From S) (definition : String) :
    C.Rel (depth + 1) depth (From S)
      (Pipeline.pipelineOf (Pipeline.references depth) (c.under left) path parameters definition)
      (Pipeline.pipelineOf (Pipeline.references depth) (c.under right) path parameters
        definition) := by
  have hrefs : C.Related 0 .none (Pipeline.references 0) := {
    steps := fun _ _ _ _ => hnone
    jobs := fun _ _ _ _ => hnone
    stages := fun _ _ _ _ => hnone
    vars := fun _ _ _ _ _ => hnone
    pipeline := fun _ _ _ _ => hnone }
  exact C.pipelineOf (C.references hrefs depth) c path hparameters definition

end Composers

end Congruence

end Pipeline
end PipelineExpansion
