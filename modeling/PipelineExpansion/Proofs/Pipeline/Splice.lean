import PipelineExpansion.Proofs.Pipeline.Retrace

/-!
# Templates are spliced in place

In a sequence of steps, of jobs or of stages a reference to a template stands for what the template has
under the same key. What the sequence is composed to is what comes of its items before the reference,
of the template's own section, and of the items behind the reference, in that order. The section is
composed in the context of the template, and there too references are followed, as deep as they lead.

The three parts are composed one after another in a load, so each starts with more files known than the
one before it, and the section has references that may lead less deep. That neither makes a difference
is what it means to retrace a step.

## Main results

* `steps_jobs_stages_splices`: a reference is replaced by what the template has, in all three kinds of
  sequences; the whole is composed just if the parts are.
-/

namespace PipelineExpansion.Pipeline

open Template (Context Entry Journal Origin Resolve Schema Token)
open Template.Resolve

variable {α β γ : Type} {view : α → γ} {x y : References → Resolve α} {a b : α} {n : Nat}
  {j j' j₁ : Journal} {c : Context}

/-! ### What is composed where references lead deep enough -/

/-- Composing comes to a value, where references may lead deep enough and no file has been read. -/
def Composes (x : References → Resolve α) (a : α) : Prop :=
  ∃ depth j, (x (references depth)).run.run {} = some (.ok a, j)

/-- The second step retraces the first wherever references may lead deeper and any number of files may
be read. -/
def Steady (view : α → γ) (x y : References → Resolve α) : Prop :=
  ∀ n depth, Retraces 0 view (x (references n)) (y (references (n + depth)))

/-- What has been composed is composed again in any journal, where references may lead as deep. -/
theorem Steady.again (h : Steady view x y) {depth : Nat}
    (hrun : (x (references depth)).run.run j = some (.ok a, j₁)) (hn : depth ≤ n) (j' : Journal) :
    ∃ b j₂, (y (references n)).run.run j' = some (.ok b, j₂) ∧ view a = view b := by
  obtain ⟨more, rfl⟩ := Nat.exists_eq_add_of_le hn
  obtain ⟨_, -, -, hagain⟩ := h depth more _ _ _ hrun
  obtain ⟨b, j₂, hrun', hview, -⟩ := hagain j' (.inl rfl)
  exact ⟨b, j₂, hrun', hview⟩

/-- What comes of a step in any journal is composed. -/
theorem Steady.composes (h : Steady view x y)
    (hrun : (x (references n)).run.run j = some (.ok a, j₁)) :
    ∃ b, Composes y b ∧ view a = view b := by
  obtain ⟨b, j₂, hrun', hview⟩ := h.again hrun (Nat.le_refl n) {}
  exact ⟨b, ⟨n, j₂, hrun'⟩, hview⟩

/-- What is composed is one thing, however deep references may lead. -/
theorem Steady.unique (h : Steady view x x) (ha : Composes x a) (hb : Composes x b) :
    view a = view b := by
  obtain ⟨depth, _, hrun⟩ := ha
  obtain ⟨depth', _, hrun'⟩ := hb
  obtain ⟨a', j, hdeep, ha⟩ := h.again hrun (Nat.le_max_left depth depth') {}
  obtain ⟨b', j', hdeep', hb⟩ := h.again hrun' (Nat.le_max_right depth depth') {}
  rw [hdeep] at hdeep'
  cases hdeep'
  exact ha.trans hb.symm

/-! ### Sections of templates -/

/-- What a template has under a key; what is absent is empty. -/
def Loaded.part (loaded : Loaded) (key : String) : Token :=
  (loaded.token.get? key).getD (.sequence .unknown [])

/-- What a template has under a key is a sequence, or absent. -/
def Loaded.HasSequence (loaded : Loaded) (key : String) : Prop :=
  loaded.token.get? key = none ∨ ∃ o items, loaded.token.get? key = some (.sequence o items)

theorem Loaded.get?_eq_of_bare {loaded loaded' : Loaded} (h : loaded.bare = loaded'.bare)
    (key : String) :
    (loaded.token.get? key).map Token.bare = (loaded'.token.get? key).map Token.bare := by
  have htoken : loaded.token.bare = loaded'.token.bare := (congrArg Loaded.token h :)
  rw [← Token.get?_bare, htoken, Token.get?_bare]

theorem Loaded.part_eq_of_bare {loaded loaded' : Loaded} (h : loaded.bare = loaded'.bare)
    (key : String) : (loaded.part key).bare = (loaded'.part key).bare := by
  have hpart (loaded : Loaded) : (loaded.part key).bare =
      ((loaded.token.get? key).map Token.bare).getD (.sequence .unknown []) := by
    rw [part]
    cases loaded.token.get? key with
    | none => rfl
    | some t => rfl
  rw [hpart, hpart, get?_eq_of_bare h]

theorem Loaded.hasSequence_of_bare {loaded loaded' : Loaded} (h : loaded.bare = loaded'.bare)
    {key : String} (hsequence : loaded'.HasSequence key) : loaded.HasSequence key := by
  have hget := get?_eq_of_bare h key
  rcases hsequence with habsent | ⟨o, items, hitems⟩
  · rw [habsent] at hget
    exact .inl (Option.map_eq_none_iff.mp hget)
  · rw [hitems] at hget
    obtain ⟨t, ht, hbare⟩ := Option.map_eq_some_iff.mp hget
    cases t with
    | sequence o' items' => exact .inr ⟨o', items', ht⟩
    | _ => cases hbare

/-- What is composed from a section that is a sequence or absent; `list` has nothing for an empty one. -/
theorem Loaded.withSection_of_hasSequence {loaded : Loaded} {key : String}
    {list compose : Context → Token → Resolve (List α)}
    (hempty : ∀ c o, list c (.sequence o []) = pure [])
    (hcompose : ∀ c o items,
      compose c (.sequence o items) = .inFile loaded.name (list c (.sequence o items)))
    (h : loaded.HasSequence key) : withSection loaded key [] compose =
      .inFile loaded.name (list loaded.context (loaded.part key)) := by
  rcases h with habsent | ⟨o, items, hitems⟩
  · rw [withSection, Loaded.part, habsent, Option.getD_none, hempty]
    rfl
  · rw [withSection, Loaded.part, hitems]
    exact hcompose _ o items

/-! ### Steps, jobs and stages -/

/-- What sequences of steps, of jobs and of stages have in common. -/
structure Kind (α : Type) where
  /-- The key that a template has a section of this kind under. -/
  key : String
  /-- What a template is checked against. -/
  definition : String
  /-- A section. -/
  list : References → Context → Token → Resolve (List α)
  items : References → Context → List Token → Resolve (List α)
  item : References → Context → Token → Resolve (List α)
  /-- What a template has. -/
  fromTemplate : References → Loaded → Resolve (List α)
  /-- Takes the numbers of files away. -/
  bare : α → α
  collects : ∀ refs c, Collects (item refs c) (items refs c)
  list_sequence : ∀ refs c o ts, list refs c (.sequence o ts) = items refs c ts
  item_reference : ∀ n c (o o' : Origin) (path : Token) (rest : List Entry) {reference : String}
    {parameters : Option Token}, path.expectNonEmpty "template" = .ok reference →
    templateParameters rest = .ok parameters →
    item (references (n + 1)) c (.mapping o ((⟨o', "template"⟩, path) :: rest)) =
      readTemplate (references n) c reference parameters definition >>= fromTemplate (references n)
  fromTemplate_eq : ∀ refs (loaded : Loaded), loaded.HasSequence key →
    fromTemplate refs loaded = .inFile loaded.name (list refs loaded.context (loaded.part key))
  retraces_list : ∀ {refs refs' : References} {c : Context} {t t' : Token},
    Retraced c.limits.maxFiles refs refs' → t.bare = t'.bare →
    Retraces c.limits.maxFiles (List.map bare) (list refs c t) (list refs' c t')

/-- Sequences of steps. -/
def Kind.steps : Kind Step where
  key := "steps"
  definition := Schema.stepRoot
  list := stepList
  items := stepsOfItems
  item := stepsOfItem
  fromTemplate := templateSteps
  bare := id
  collects := collects_stepsOfItems
  list_sequence _ _ _ _ := rfl
  item_reference n c o o' path rest reference parameters hpath hparameters := by
    simp only [stepsOfItem, Token.expectMapping, Token.entries?, ofExcept_ok_bind, if_true, hpath,
      hparameters]
    rfl
  fromTemplate_eq _ _ :=
    Loaded.withSection_of_hasSequence (fun _ _ => rfl) fun _ _ _ => rfl
  retraces_list h ht := by
    rw [List.map_id_fun]
    exact retraces_stepList h ht

/-- Sequences of jobs. -/
def Kind.jobs : Kind Job where
  key := "jobs"
  definition := Schema.jobRoot
  list := jobList
  items := jobsOfItems
  item := jobsOfItem
  fromTemplate refs loaded :=
    withSection loaded "jobs" [] fun c t => Resolve.inFile loaded.name (jobList refs c t)
  bare := Job.bare
  collects := collects_jobsOfItems
  list_sequence _ _ _ _ := rfl
  item_reference n c o o' path rest reference parameters hpath hparameters := by
    simp only [jobsOfItem, templateReference?, Token.expectMapping, Token.entries?, ofExcept_ok_bind,
      if_true, hpath, hparameters]
    rfl
  fromTemplate_eq _ _ :=
    Loaded.withSection_of_hasSequence (fun _ _ => rfl) fun _ _ _ => rfl
  retraces_list := retraces_jobList

/-- Sequences of stages. -/
def Kind.stages : Kind Stage where
  key := "stages"
  definition := Schema.stageRoot
  list := stageList
  items := stagesOfItems
  item := stagesOfItem
  fromTemplate refs loaded :=
    withSection loaded "stages" [] fun c t => Resolve.inFile loaded.name (stageList refs c t)
  bare := Stage.bare
  collects := collects_stagesOfItems
  list_sequence _ _ _ _ := rfl
  item_reference n c o o' path rest reference parameters hpath hparameters := by
    simp only [stagesOfItem, templateReference?, Token.expectMapping, Token.entries?,
      ofExcept_ok_bind, if_true, hpath, hparameters]
    rfl
  fromTemplate_eq _ _ :=
    Loaded.withSection_of_hasSequence (fun _ _ => rfl) fun _ _ _ => rfl
  retraces_list := retraces_stageList

/-! ### Splicing -/

/-- A reference in a sequence: the items around it, and the template that it names. -/
structure Reference where
  origin : Origin
  before : List Token
  /-- Where the reference stands, and its key. -/
  place : Origin
  keyPlace : Origin
  path : Token
  rest : List Entry
  after : List Token
  name : String
  parameters : Option Token
  path_eq : path.expectNonEmpty "template" = .ok name
  rest_eq : templateParameters rest = .ok parameters

namespace Reference

/-- The item that refers to the template. -/
def item (r : Reference) : Token := .mapping r.place ((⟨r.keyPlace, "template"⟩, r.path) :: r.rest)

/-- The sequence that the reference stands in. -/
def whole (r : Reference) : Token := .sequence r.origin (r.before ++ r.item :: r.after)

end Reference

section Splicing

variable (kind : Kind α) (c : Context) (r : Reference)

/-- What the parts of a sequence come to: the items before a reference, the template, its own section
in its own context, and the items behind the reference. -/
structure Kind.Parts (first : List α) (loaded : Loaded) (own last : List α) : Prop where
  before : Composes (kind.list · c (.sequence r.origin r.before)) first
  template : Composes (readTemplate · c r.name r.parameters kind.definition) loaded
  own : Composes (kind.list · loaded.context (loaded.part kind.key)) own
  after : Composes (kind.list · c (.sequence r.origin r.after)) last

variable {kind c r}

theorem Kind.steady_list (hfiles : c.limits.maxFiles = 0) {t t' : Token} (ht : t.bare = t'.bare) :
    Steady (List.map kind.bare) (kind.list · c t) (kind.list · c t') :=
  fun n depth => hfiles ▸ kind.retraces_list (retraced_references _ n depth) ht

theorem steady_readTemplate (hfiles : c.limits.maxFiles = 0) (reference : String)
    (parameters : Option Token) (definition : String) :
    Steady Loaded.bare (readTemplate · c reference parameters definition)
      (readTemplate · c reference parameters definition) :=
  fun n depth => hfiles ▸ retraces_readTemplate (retraced_references _ n depth) reference rfl definition

/-- A template is bounded as what refers to it is. -/
theorem yields_limits (refs : References) (c : Context) (reference : String)
    (parameters : Option Token) (definition : String) :
    Yields (readTemplate refs c reference parameters definition) fun loaded =>
      loaded.context.limits = c.limits := by
  unfold readTemplate
  refine yields_bind_of_forall fun place => yields_bind_of_forall fun _ => ?_
  exact yields_bind_of_forall fun result => yields_pure rfl

/-- The whole is composed part by part. -/
theorem Kind.run_whole {all : List α} (hsequence : ∀ loaded j j',
      (readTemplate (references n) c r.name r.parameters kind.definition).run.run j =
        some (.ok loaded, j') → loaded.HasSequence kind.key) :
    (kind.list (references (n + 1)) c r.whole).run.run j = some (.ok all, j') ↔
      ∃ first loaded own last j₁ j₂ j₃,
        (kind.list (references (n + 1)) c (.sequence r.origin r.before)).run.run j =
          some (.ok first, j₁) ∧
        (readTemplate (references n) c r.name r.parameters kind.definition).run.run j₁ =
          some (.ok loaded, j₂) ∧
        (kind.list (references n) loaded.context (loaded.part kind.key)).run.run j₂ =
          some (.ok own, j₃) ∧
        (kind.list (references (n + 1)) c (.sequence r.origin r.after)).run.run j₃ =
          some (.ok last, j') ∧
        all = first ++ own ++ last := by
  have hitem := kind.item_reference n c r.place r.keyPlace r.path r.rest r.path_eq r.rest_eq
  rw [Reference.whole, kind.list_sequence, kind.list_sequence, kind.list_sequence,
    (kind.collects _ _).append, (kind.collects _ _).cons, Reference.item, hitem]
  simp only [Resolve.run_bind_eq_ok]
  constructor
  · rintro ⟨first, j₁, hfirst, others, j₄, hothers, hall⟩
    obtain ⟨own, j₃, ⟨loaded, j₂, hloaded, hown⟩, last, j₄', hlast, hpair⟩ := hothers
    cases hpair
    cases hall
    rw [kind.fromTemplate_eq _ _ (hsequence loaded j₁ j₂ hloaded), run_inFile_eq_ok] at hown
    exact ⟨first, loaded, own, last, j₁, j₂, j₃, hfirst, hloaded, hown, hlast,
      (List.append_assoc first own last).symm⟩
  · rintro ⟨first, loaded, own, last, j₁, j₂, j₃, hfirst, hloaded, hown, hlast, rfl⟩
    rw [← run_inFile_eq_ok, ← kind.fromTemplate_eq _ _ (hsequence loaded j₁ j₂ hloaded)] at hown
    refine ⟨first, j₁, hfirst, own ++ last, j', ?_, ?_⟩
    · exact ⟨own, j₃, ⟨loaded, j₂, hloaded, hown⟩, last, j', hlast, rfl⟩
    · rw [List.append_assoc]
      rfl

section Whole

variable (hfiles : c.limits.maxFiles = 0)
  (hsequence : ∀ loaded, Composes (readTemplate · c r.name r.parameters kind.definition) loaded →
    loaded.HasSequence kind.key)

include hfiles hsequence

/-- Wherever the template is read, it has a sequence. -/
theorem Kind.hasSequence_of_run {loaded : Loaded}
    (hrun : (readTemplate (references n) c r.name r.parameters kind.definition).run.run j =
      some (.ok loaded, j')) : loaded.HasSequence kind.key := by
  obtain ⟨loaded', hloaded, hbare⟩ := (steady_readTemplate hfiles _ _ _).composes hrun
  exact Loaded.hasSequence_of_bare hbare (hsequence loaded' hloaded)

/-- Where the whole is composed, so are the parts. -/
theorem Kind.parts_of_composes {all : List α} (h : Composes (kind.list · c r.whole) all) :
    ∃ first loaded own last, kind.Parts c r first loaded own last := by
  obtain ⟨depth, _, hrun⟩ := h
  -- One level more than is needed, since the template takes one.
  obtain ⟨all', j', hrun, -⟩ := (kind.steady_list hfiles rfl).again hrun (Nat.le_succ depth) {}
  rw [kind.run_whole fun loaded j j' => kind.hasSequence_of_run hfiles hsequence] at hrun
  obtain ⟨first, loaded, own, last, j₁, j₂, j₃, hfirst, hloaded, hown, hlast, -⟩ := hrun
  have hlimits : loaded.context.limits = c.limits := yields_limits _ _ _ _ _ _ _ _ hloaded
  obtain ⟨first', hfirst', -⟩ := (kind.steady_list hfiles rfl).composes hfirst
  obtain ⟨loaded', hloaded', hbare⟩ := (steady_readTemplate hfiles _ _ _).composes hloaded
  have hsection := kind.steady_list (c := loaded.context) (hlimits ▸ hfiles)
    (Loaded.part_eq_of_bare hbare kind.key)
  obtain ⟨own', hown', -⟩ := hsection.composes hown
  obtain ⟨last', hlast', -⟩ := (kind.steady_list hfiles rfl).composes hlast
  have hcontext : loaded.context = loaded'.context := (congrArg Loaded.context hbare :)
  exact ⟨first', loaded', own', last', hfirst', hloaded', hcontext ▸ hown', hlast'⟩

/-- Where the parts are composed, so is the whole: it is one part after the other. -/
theorem Kind.Parts.composes {first own last : List α} {loaded : Loaded}
    (h : kind.Parts c r first loaded own last) :
    ∃ all, Composes (kind.list · c r.whole) all ∧
      all.map kind.bare = (first ++ own ++ last).map kind.bare := by
  obtain ⟨⟨d₁, _, hfirst⟩, ⟨d₂, _, hloaded⟩, ⟨d₃, _, hown⟩, ⟨d₄, _, hlast⟩⟩ := h
  have hlimits : loaded.context.limits = c.limits := yields_limits _ _ _ _ _ _ _ _ hloaded
  let n := max (max d₁ d₂) (max d₃ d₄)
  have hlist {t : Token} := kind.steady_list (c := c) (t := t) hfiles rfl
  obtain ⟨first', j₁, hfirst', hfirst⟩ := hlist.again hfirst (n := n + 1) (by omega) {}
  obtain ⟨loaded', j₂, hloaded', hbare⟩ :=
    (steady_readTemplate hfiles _ _ _).again hloaded (n := n) (by omega) j₁
  have hsection := kind.steady_list (c := loaded.context) (hlimits ▸ hfiles)
    (Loaded.part_eq_of_bare hbare kind.key)
  obtain ⟨own', j₃, hown', hown⟩ := hsection.again hown (n := n) (by omega) j₂
  obtain ⟨last', j₄, hlast', hlast⟩ := hlist.again hlast (n := n + 1) (by omega) j₃
  have hcontext : loaded.context = loaded'.context := (congrArg Loaded.context hbare :)
  have hrun := (kind.run_whole fun loaded j j' => kind.hasSequence_of_run hfiles hsequence).mpr
    ⟨first', loaded', own', last', j₁, j₂, j₃, hfirst', hloaded', hcontext ▸ hown', hlast', rfl⟩
  refine ⟨_, ⟨n + 1, j₄, hrun⟩, ?_⟩
  simp only [List.map_append, hfirst, hown, hlast]

end Whole

/-- A reference stands for what the template has, if that is a sequence or absent: the sequence is
composed just if the parts are, and comes to what these come to, one after the other. -/
def Kind.Splices (kind : Kind α) (c : Context) (r : Reference) : Prop :=
  (∀ loaded, Composes (readTemplate · c r.name r.parameters kind.definition) loaded →
    loaded.HasSequence kind.key) →
  ((∃ all, Composes (kind.list · c r.whole) all) ↔
    ∃ first loaded own last, kind.Parts c r first loaded own last) ∧
  ∀ all first loaded own last, Composes (kind.list · c r.whole) all →
    kind.Parts c r first loaded own last →
    all.map kind.bare = first.map kind.bare ++ own.map kind.bare ++ last.map kind.bare

theorem Kind.splices (hfiles : c.limits.maxFiles = 0) : kind.Splices c r := by
  intro hsequence
  constructor
  · refine ⟨fun ⟨all, hall⟩ => kind.parts_of_composes hfiles hsequence hall, ?_⟩
    rintro ⟨first, loaded, own, last, hparts⟩
    obtain ⟨all, hall, -⟩ := hparts.composes hfiles hsequence
    exact ⟨all, hall⟩
  · intro all first loaded own last hall hparts
    obtain ⟨all', hall', hmap⟩ := hparts.composes hfiles hsequence
    rw [(kind.steady_list hfiles rfl).unique hall hall', hmap, List.map_append, List.map_append]

end Splicing

/-- Where a template is found to have a sequence, it has one however deep references may lead. -/
theorem Kind.hasSequence_of_check {kind : Kind α} {c : Context} {r : Reference}
    (hfiles : c.limits.maxFiles = 0) (depth : Nat)
    (h : ((readTemplate (references depth) c r.name r.parameters kind.definition).run.run {}).any
      (fun outcome => outcome.1.toOption.any fun loaded =>
        ((loaded.token.get? kind.key).bind Token.items?).isSome) = true) :
    ∀ loaded, Composes (readTemplate · c r.name r.parameters kind.definition) loaded →
      loaded.HasSequence kind.key := by
  intro loaded hloaded
  rw [Option.any_eq_true] at h
  obtain ⟨⟨outcome, j⟩, hrun, hcheck⟩ := h
  cases outcome with
  | error d => cases hcheck
  | ok found =>
      have hsame := (steady_readTemplate hfiles _ _ _).unique hloaded ⟨depth, j, hrun⟩
      refine Loaded.hasSequence_of_bare hsame ?_
      have hitems : ((found.token.get? kind.key).bind Token.items?).isSome = true := hcheck
      cases ht : found.token.get? kind.key with
      | none => exact .inl ht
      | some t =>
          rw [ht] at hitems
          cases t with
          | sequence o items => exact .inr ⟨o, items, ht⟩
          | _ => cases hitems

theorem composes_of_check {x : References → Resolve α} (depth : Nat)
    (h : ((x (references depth)).run.run {}).any (·.1.isOk) = true) : ∃ a, Composes x a := by
  rw [Option.any_eq_true] at h
  obtain ⟨⟨outcome, j⟩, hrun, hok⟩ := h
  cases outcome with
  | error d => cases hok
  | ok a => exact ⟨a, depth, j, hrun⟩

/-- What is composed from a whole and from its parts. -/
theorem Kind.Splices.exists_parts {kind : Kind α} {c : Context} {r : Reference}
    (h : kind.Splices c r)
    (hsequence : ∀ loaded, Composes (readTemplate · c r.name r.parameters kind.definition) loaded →
      loaded.HasSequence kind.key)
    (hwhole : ∃ all, Composes (kind.list · c r.whole) all) :
    ∃ all first loaded own last, Composes (kind.list · c r.whole) all ∧
      kind.Parts c r first loaded own last ∧
      all.map kind.bare = first.map kind.bare ++ own.map kind.bare ++ last.map kind.bare := by
  obtain ⟨hiff, hmap⟩ := h hsequence
  obtain ⟨first, loaded, own, last, hparts⟩ := hiff.mp hwhole
  obtain ⟨all, hall⟩ := hwhole
  exact ⟨all, first, loaded, own, last, hall, hparts, hmap _ _ _ _ _ hall hparts⟩

/-- **Templates are spliced in place**, wherever a reference stands in a sequence of steps, of jobs or
of stages, in any context with no limit on files. -/
theorem steps_jobs_stages_splices (c : Context) (r : Reference) (hfiles : c.limits.maxFiles = 0) :
    Kind.steps.Splices c r ∧ Kind.jobs.Splices c r ∧ Kind.stages.Splices c r :=
  ⟨Kind.splices hfiles, Kind.splices hfiles, Kind.splices hfiles⟩

/-- Two templates. -/
def twoTemplates (parts more : String) : Context where
  files := Files.inMemory [⟨none, "parts.yml", parts⟩, ⟨none, "more.yml", more⟩]
  schema := .standard

/-- A reference, with a parameter, between two items. -/
def between (key : String) : Reference where
  origin := .unknown
  before := [.ofPairs [(key, .ofText "make")]]
  place := .unknown
  keyPlace := .unknown
  path := .ofText "parts.yml"
  rest := [(⟨.unknown, "parameters"⟩, .ofPairs [("title", .ofText "Lint")])]
  after := [.ofPairs [(key, .ofText "ship")]]
  name := "parts.yml"
  parameters := some (.ofPairs [("title", .ofText "Lint")])
  path_eq := rfl
  rest_eq := rfl

/-- Steps between which there are two templates, one in the other. -/
def stepsApart : Context := twoTemplates
  ("parameters: \x7btitle: x\x7d\n" ++
    "steps:\n- script: $\x7b\x7b parameters.title \x7d\x7d\n- template: more.yml\n")
  "steps: [\x7bscript: test\x7d]"

/-- Jobs, as the steps of `stepsApart`. -/
def jobsApart : Context := twoTemplates
  "parameters: \x7btitle: x\x7d\njobs: [\x7bjob: lint\x7d, \x7btemplate: more.yml\x7d]"
  "jobs: [\x7bjob: test\x7d]"

/-- Stages, as the steps of `stepsApart`. -/
def stagesApart : Context := twoTemplates
  "parameters: \x7btitle: x\x7d\nstages: [\x7bstage: lint\x7d, \x7btemplate: more.yml\x7d]"
  "stages: [\x7bstage: test\x7d]"

theorem splices_apart :
    (∃ all first loaded own last, Composes (stepList · stepsApart (between "script").whole) all ∧
      Kind.steps.Parts stepsApart (between "script") first loaded own last ∧
      all.map id = first.map id ++ own.map id ++ last.map id) ∧
    (∃ all first loaded own last, Composes (jobList · jobsApart (between "job").whole) all ∧
      Kind.jobs.Parts jobsApart (between "job") first loaded own last ∧
      all.map Job.bare = first.map Job.bare ++ own.map Job.bare ++ last.map Job.bare) ∧
    ∃ all first loaded own last, Composes (stageList · stagesApart (between "stage").whole) all ∧
      Kind.stages.Parts stagesApart (between "stage") first loaded own last ∧
      all.map Stage.bare = first.map Stage.bare ++ own.map Stage.bare ++ last.map Stage.bare := by
  have hsteps := (steps_jobs_stages_splices stepsApart (between "script") rfl).1
  have hjobs := (steps_jobs_stages_splices jobsApart (between "job") rfl).2.1
  have hstages := (steps_jobs_stages_splices stagesApart (between "stage") rfl).2.2
  refine ⟨hsteps.exists_parts ?_ ?_, hjobs.exists_parts ?_ ?_, hstages.exists_parts ?_ ?_⟩
  · exact Kind.hasSequence_of_check rfl 1 (by decide +kernel)
  · exact composes_of_check 3 (by decide +kernel)
  · exact Kind.hasSequence_of_check rfl 1 (by decide +kernel)
  · exact composes_of_check 3 (by decide +kernel)
  · exact Kind.hasSequence_of_check rfl 1 (by decide +kernel)
  · exact composes_of_check 3 (by decide +kernel)

end PipelineExpansion.Pipeline
