import PipelineExpansion.Proofs.Pipeline.Composition
import PipelineExpansion.Proofs.Pipeline.Extension
import PipelineExpansion.Proofs.Pipeline.Merge

/-!
# Chains of documents that extend one another

A document may extend another, which may extend a third, and so on. Each composes the next one first and
merges it then, so the last document is merged by all of them in turn. What becomes of the whole chain is
said of the documents themselves: what each declares, and what the last one is composed to.

A document of the chain is what a reference yields from some state of a load. Another state may give other
numbers to its file, so all is said up to these numbers (`Extends.exists_base`).

## Main results

* `Document.run_compose`: a document is composed from what it declares and from what it extends.
* `merged_of_chain`: the stages, variables and resources of a chain of any length.
-/

namespace PipelineExpansion.Pipeline

open Template (Context Entry Journal Resolve Schema Token)
open Template.Resolve

variable {refs : References} {c : Context} {e : Entry} {entries : List Entry} {j j' : Journal}
  {p : Pipeline}

/-! ### Sections of a document -/

theorem yields_canReturn {α : Type} (step : Resolve α) : Yields step (CanReturn step) :=
  fun j _ j' hrun => ⟨j, j', hrun⟩

/-- What is taken again looks the same whenever it is taken. -/
theorem CanReturn.view_eq {maximum : Nat} {α γ : Type} {view : α → γ} {step : Resolve α} {a b : α}
    (h : Retraces maximum view step step) (ha : CanReturn step a) (hb : CanReturn step b) :
    view a = view b := by
  obtain ⟨j, j₁, hrun⟩ := ha
  obtain ⟨j', j₁', hrun'⟩ := hb
  obtain ⟨more, -, hroom, hagain⟩ := h j a j₁ hrun
  obtain ⟨more', -, hroom', hagain'⟩ := h j' b j₁' hrun'
  -- The one with more files known before has left room for the other.
  rcases Nat.le_total j.files.length j'.files.length with hle | hle
  · have hfits : Room maximum j.files.length more' := by
      unfold Room at hroom' ⊢
      omega
    obtain ⟨b', _, hrun'', hb', -⟩ := hagain' j hfits
    rw [hrun] at hrun''
    cases hrun''
    exact hb'.symm
  · have hfits : Room maximum j'.files.length more := by
      unfold Room at hroom ⊢
      omega
    obtain ⟨a', _, hrun'', ha', -⟩ := hagain j' hfits
    rw [hrun'] at hrun''
    cases hrun''
    exact ha'

/-- What stands under a key; of several entries the last one counts. -/
def lastValue? (key : String) : List Entry → Option Token
  | [] => none
  | e :: rest => (lastValue? key rest).or (if e.1.name = key then some e.2 else none)

/-- A field that only the entries of a key set holds what the last of them has set. -/
theorem field_of_run {σ β : Type} {step : σ → Entry → Resolve σ} {s s' : σ} (field : σ → β)
    {key : String} {P : Token → β → Prop}
    (hkeep : ∀ s e, e.1.name ≠ key → Yields (step s e) fun s' => field s' = field s)
    (hset : ∀ s e, e.1.name = key → Yields (step s e) fun s' => P e.2 (field s'))
    (hrun : (entries.foldlM step s).run.run j = some (.ok s', j')) :
    (lastValue? key entries = none → field s' = field s) ∧
      ∀ t, lastValue? key entries = some t → P t (field s') := by
  induction entries generalizing s j with
  | nil =>
      cases hrun
      exact ⟨fun _ => rfl, nofun⟩
  | cons e rest ih =>
      rw [List.foldlM_cons, Resolve.run_bind_eq_ok] at hrun
      obtain ⟨s₁, j₁, hfirst, hrest⟩ := hrun
      obtain ⟨hnone, hsome⟩ := ih hrest
      rw [lastValue?]
      cases hlast : lastValue? key rest with
      | some t =>
          refine ⟨nofun, fun t' ht' => ?_⟩
          cases ht'
          exact hsome t hlast
      | none =>
          by_cases hname : e.1.name = key
          · rw [if_pos hname]
            refine ⟨nofun, fun t ht => ?_⟩
            cases ht
            rw [hnone hlast]
            exact hset s e hname _ _ _ hfirst
          · rw [if_neg hname]
            refine ⟨fun _ => ?_, nofun⟩
            rw [hnone hlast]
            exact hkeep s e hname _ _ _ hfirst

/-- An entry leaves alone what is not its own. -/
theorem Draft.yields_kept (d : Draft) (e : Entry) :
    Yields (d.read refs c e) fun d' =>
      (e.1.name ≠ "variables" → d'.pipeline.vars = d.pipeline.vars) ∧
      (e.1.name ≠ "resources" → d'.pipeline.resources = d.pipeline.resources) ∧
      (e.1.name ≠ "extends" → d'.base = d.base) := by
  obtain ⟨⟨o, name⟩, value⟩ := e
  unfold read
  dsimp only
  split
  case h_2 | h_6 | h_7 | h_12 | h_13 | h_14 | h_15 =>
    exact yields_pure ⟨fun _ => rfl, fun _ => rfl, fun _ => rfl⟩
  case h_3 =>
    exact yields_bind_of_forall fun _ => yields_pure ⟨fun h => absurd rfl h, fun _ => rfl, fun _ => rfl⟩
  case h_4 =>
    refine yields_bind_of_forall fun _ => yields_bind_of_forall fun _ => yields_pure ?_
    exact ⟨fun _ => rfl, fun _ => rfl, fun h => absurd rfl h⟩
  case h_8 =>
    exact yields_bind_of_forall fun _ => yields_pure ⟨fun _ => rfl, fun h => absurd rfl h, fun _ => rfl⟩
  all_goals
    exact yields_bind_of_forall fun _ => yields_pure ⟨fun _ => rfl, fun _ => rfl, fun _ => rfl⟩

/-- Variables are what their section is read to. -/
def ReadsVariables (refs : References) (c : Context) (t : Token) (vars : Option (List Variable)) :
    Prop :=
  ∃ own, CanReturn (addVariables refs c [] t) own ∧ vars = some own

/-- Resources are what their section is read to. -/
def ReadsResources (t : Token) (r : Option Resources) : Prop :=
  ∃ own, Resources.ofToken? t = .ok own ∧ r = some own

/-- A pipeline is the one that a section extends. -/
def ReadsBase (refs : References) (c : Context) (t : Token) (base : Option Pipeline) : Prop :=
  ∃ template parameters extended, extensionOf t = .ok (template, parameters) ∧
    CanReturn (refs.pipeline c template parameters) extended ∧ base = some extended

theorem Draft.yields_variables (d : Draft) (h : e.1.name = "variables") :
    Yields (d.read refs c e) fun d' => ReadsVariables refs c e.2 d'.pipeline.vars := by
  obtain ⟨⟨o, name⟩, value⟩ := e
  obtain rfl : name = "variables" := h
  exact (yields_canReturn _).bind fun vars hvars => yields_pure ⟨vars, hvars, rfl⟩

theorem Draft.yields_resources (d : Draft) (h : e.1.name = "resources") :
    Yields (d.read refs c e) fun d' => ReadsResources e.2 d'.pipeline.resources := by
  obtain ⟨⟨o, name⟩, value⟩ := e
  obtain rfl : name = "resources" := h
  exact (yields_ofExcept fun _ hr => hr).bind fun r hr => yields_pure ⟨r, hr, rfl⟩

theorem Draft.yields_extends (d : Draft) (h : e.1.name = "extends") :
    Yields (d.read refs c e) fun d' => ReadsBase refs c e.2 d'.base := by
  obtain ⟨⟨o, name⟩, value⟩ := e
  obtain rfl : name = "extends" := h
  refine (yields_ofExcept fun _ hx => hx).bind ?_
  rintro ⟨template, parameters⟩ hx
  exact (yields_canReturn _).bind fun base hbase => yields_pure ⟨template, parameters, base, hx, hbase, rfl⟩

/-! ### Documents -/

/-- The root of a document, the context that it is read in, and how deep references may lead. -/
structure Document where
  depth : Nat
  context : Context
  root : Token

namespace Document

/-- The pipeline of a document. -/
def compose (d : Document) : Resolve Pipeline := ofToken? (references d.depth) d.context d.root

/-- A section of a document. -/
def section? (d : Document) (key : String) : Option Token := lastValue? key (d.root.entries?.getD [])

/-- The resources that a document declares. -/
def resources (d : Document) : Resources :=
  match d.section? "resources" with
  | none => {}
  | some t => (Resources.ofToken? t).toOption.getD {}

/-- A pipeline with the variables and the resources that a document declares. -/
structure Owns (d : Document) (p : Pipeline) : Prop where
  vars : ∀ t, d.section? "variables" = some t →
    ReadsVariables (references d.depth) d.context t p.vars
  noVars : d.section? "variables" = none → p.vars = none
  resources : p.allResources = d.resources

/-- **A document is composed from what it declares and from what it extends.** -/
theorem run_compose {d : Document} (h : CanReturn d.compose p) :
    ∃ own : Pipeline, d.Owns own ∧
      (d.section? "extends" = none → p = own.resolveContainers) ∧
      ∀ t, d.section? "extends" = some t →
        ∃ base merged, ReadsBase (references d.depth) d.context t (some base) ∧
          own.merge base = .ok merged ∧ p = merged.resolveContainers := by
  obtain ⟨j, j', hrun⟩ := h
  rw [compose, ofToken?_eq_finish, Resolve.run_bind_eq_ok] at hrun
  obtain ⟨entries, j₁, hentries, hrun⟩ := hrun
  obtain ⟨draft, j₂, hdraft, hrun⟩ := Resolve.run_bind_eq_ok.mp hrun
  obtain ⟨stages, j₃, -, hfinish⟩ := Resolve.run_bind_eq_ok.mp hrun
  obtain ⟨hfinish, -⟩ := Resolve.run_ofExcept_eq_ok.mp hfinish
  have hsection (key : String) : d.section? key = lastValue? key entries := by
    obtain ⟨hmapping, -⟩ := Resolve.run_ofExcept_eq_ok.mp hentries
    unfold Token.expectMapping at hmapping
    split at hmapping
    · next found hfound =>
      cases hmapping
      rw [section?, hfound]
      rfl
    · cases hmapping
  have hvars := field_of_run (·.pipeline.vars)
    (fun s e hname _ _ _ hrun => (s.yields_kept e _ _ _ hrun).1 hname)
    (fun s e hname => s.yields_variables hname) hdraft
  have hresources := field_of_run (·.pipeline.resources)
    (fun s e hname _ _ _ hrun => (s.yields_kept e _ _ _ hrun).2.1 hname)
    (fun s e hname => s.yields_resources hname) hdraft
  have hbase := field_of_run (·.base)
    (fun s e hname _ _ _ hrun => (s.yields_kept e _ _ _ hrun).2.2 hname)
    (fun s e hname => s.yields_extends hname) hdraft
  simp only [← hsection] at hvars hresources hbase
  refine ⟨{ draft.pipeline with stages := stages }, ⟨hvars.2, hvars.1, ?_⟩, fun hnone => ?_, ?_⟩
  · rw [resources]
    cases hfound : d.section? "resources" with
    | none => exact congrArg (Option.getD · {}) (hresources.1 hfound)
    | some t =>
        obtain ⟨r, hr, hset⟩ := hresources.2 t hfound
        dsimp only
        rw [hr]
        exact congrArg (Option.getD · {}) hset
  · rw [Draft.finish, hbase.1 hnone] at hfinish
    exact (Except.ok.inj hfinish).symm
  · intro t ht
    obtain ⟨template, parameters, base, hx, hreturn, hset⟩ := hbase.2 t ht
    rw [Draft.finish, hset] at hfinish
    obtain ⟨merged, hmerged, hpure⟩ := bind_eq_ok.mp hfinish
    exact ⟨base, merged, ⟨template, parameters, base, hx, hreturn, rfl⟩, hmerged,
      (Except.ok.inj hpure).symm⟩

/-- A document extends the one that its section refers to. -/
def Extends (d d' : Document) : Prop :=
  d.depth = d'.depth + 1 ∧
    ∃ t template parameters loaded, d.section? "extends" = some t ∧
      extensionOf t = .ok (template, parameters) ∧
      CanReturn (readTemplate (references d'.depth) d.context template parameters Schema.extendRoot)
        loaded ∧
      withOwnRepositories loaded = .ok d'.context ∧ d'.root = loaded.token

/-- What a document extends is what the other is composed to, up to the numbers of files. -/
theorem Extends.exists_base {d d' : Document} (h : d.Extends d') {t : Token}
    (ht : d.section? "extends" = some t) {base : Pipeline}
    (hbase : ReadsBase (references d.depth) d.context t (some base)) :
    ∃ base', CanReturn d'.compose base' ∧ base.bare = base'.bare := by
  obtain ⟨hdepth, t', template, parameters, loaded, ht', hx, hload, hcontext, hroot⟩ := h
  obtain rfl : t = t' := Option.some.inj (ht.symm.trans ht')
  obtain ⟨template', parameters', extended, hx', ⟨j, j', hrun⟩, heq⟩ := hbase
  cases heq
  rw [hx] at hx'
  cases hx'
  have hrefs : Extending d.context.limits.maxFiles (references d'.depth) (references d'.depth) :=
    extending_references _ d'.depth 0
  have hpipeline : (references d.depth).pipeline d.context template parameters =
      pipelineOf (references d'.depth) d.context template parameters Schema.extendRoot := by
    rw [hdepth]
    rfl
  rw [hpipeline, pipelineOf_eq, Resolve.run_bind_eq_ok] at hrun
  obtain ⟨loaded', j₁, hload', hrun⟩ := hrun
  obtain ⟨own, j₂, hown, hrun⟩ := Resolve.run_bind_eq_ok.mp hrun
  obtain ⟨hown, -⟩ := Resolve.run_ofExcept_eq_ok.mp hown
  have hsame : loaded.bare = loaded'.bare :=
    CanReturn.view_eq (retraces_readTemplate hrefs.toRetraced template rfl _) hload ⟨_, _, hload'⟩
  have htoken : loaded.token.bare = loaded'.token.bare := (congrArg Loaded.token hsame :)
  have hsurroundings : loaded.context = loaded'.context := (congrArg Loaded.context hsame :)
  have hcontext' : loaded'.context.withRepositories own = d'.context := by
    have haliases : repositoryAliases loaded.token = .ok own := by
      rw [← repositoryAliases_bare, htoken, repositoryAliases_bare, hown]
    rw [withOwnRepositories, haliases, hsurroundings] at hcontext
    exact Except.ok.inj hcontext
  have hagain : Retraces d'.context.limits.maxFiles Pipeline.bare
      (ofToken? (references d'.depth) d'.context loaded'.token) d'.compose :=
    retraces_ofToken? (extending_references _ d'.depth 0) (hroot ▸ htoken.symm)
  rw [hcontext'] at hrun
  obtain ⟨more, -, hroom, hagain⟩ := hagain _ _ _ (run_inFile_eq_ok.mp hrun)
  obtain ⟨base', j₃, hrun', hbare, -⟩ := hagain _ hroom
  exact ⟨base', ⟨_, _, hrun'⟩, hbare⟩

/-- What a chain asks of its documents: aliases that are distinct whatever the case of their letters,
and sequences for the other kinds of resources. -/
structure Regular (d : Document) : Prop where
  distinct : (d.resources.containers.map Container.slot).Nodup
  sequences : ∀ e ∈ d.resources.other, e.2.items?.isSome

theorem Regular.orderly {d : Document} (h : d.Regular) : d.resources.Orderly := by
  obtain ⟨haliased, hcanonical⟩ :
      (∀ c ∈ d.resources.containers, c.slot ≠ none) ∧ d.resources.other.Canonical := by
    have hempty : (∀ c ∈ ({} : Resources).containers, c.slot ≠ none) ∧
        ({} : Resources).other.Canonical := ⟨List.forall_mem_nil _, Dictionary.canonical_nil⟩
    unfold resources
    split
    · exact hempty
    · next t _ =>
      cases hr : Resources.ofToken? t with
      | error _ => exact hempty
      | ok r => exact Resources.ensures_ofToken? t r hr
  exact ⟨⟨haliased, h.distinct⟩, ⟨hcanonical, h.sequences⟩⟩

end Document

/-! ### Chains -/

/-- A document and those that it extends, one after another, to the one that extends nothing. -/
inductive Chain : Document → List Document → Prop
  | last {d : Document} : d.section? "extends" = none → Chain d []
  | extends {d d' : Document} {ds : List Document} : d.Extends d' → Chain d' ds → Chain d (d' :: ds)

/-- The lists that are there, one after another; none if there are none. -/
def concatenated {α : Type} (parts : List (Option (List α))) : Option (List α) :=
  parts.foldr (Option.merge (· ++ ·)) none

/-- Whether a document declares variables. -/
def Document.declaresVariables (d : Document) : Bool := (d.section? "variables").isSome

/-- What a document and those that it extends are merged to, up to the numbers of files: the stages of
the last, the variables of the only one that declares some, for an alias the container of the last one
that declares it, and the other resources of all of them in their order. -/
structure Merged (d : Document) (ds : List Document) (p : Pipeline) : Prop where
  stages : ∃ q, CanReturn (ds.getLastD d).compose q ∧
    p.stages = q.bare.stages.map (·.map (Stage.withResources p.resources))
  once : (d :: ds).countP Document.declaresVariables ≤ 1
  vars : ∀ a ∈ d :: ds, ∀ t, a.section? "variables" = some t →
    ReadsVariables (references a.depth) a.context t p.vars
  noVars : (∀ a ∈ d :: ds, a.section? "variables" = none) → p.vars = none
  container? : ∀ name, p.allResources.container? name =
    (d :: ds).reverse.findSome? (·.resources.container? name)
  items? : ∀ kind, p.allResources.items? kind =
    concatenated ((d :: ds).map (·.resources.bare.items? kind))
  orderly : p.allResources.Orderly

/-! ### Stages -/

theorem Stage.withResources_of_covers {r r' : Resources} (h : r.Covers r') (s : Stage) :
    (s.withResources (some r')).withResources (some r) = s.withResources (some r) := by
  simp [withResources, Job.resolveContainers_of_covers h, Function.comp_def]

/-! ### Merging a chain -/

theorem allResources_resolveContainers (p : Pipeline) :
    p.resolveContainers.allResources = p.allResources := by
  rw [allResources, resources_resolveContainers, allResources]

theorem vars_resolveContainers (p : Pipeline) : p.resolveContainers.vars = p.vars := by
  unfold resolveContainers
  split <;> rfl

theorem allResources_bare (p : Pipeline) : p.bare.allResources = p.allResources.bare := by
  rcases p with ⟨_, _, _ | r, _⟩ <;> rfl

section Step

variable {d d' : Document} {ds : List Document} {own base merged : Pipeline}

theorem Document.Owns.allResources_bare (hown : d.Owns own) :
    own.bare.allResources = d.resources.bare := by
  rw [Pipeline.allResources_bare, hown.resources]

/-- A document that extends nothing is composed from its own. -/
theorem merged_last (hown : d.Owns own) (hregular : d.Regular)
    (hp : CanReturn d.compose own.resolveContainers) :
    Merged d [] own.resolveContainers.bare := by
  have hresources : own.resolveContainers.bare.allResources = d.resources.bare := by
    rw [← resolveContainers_bare, allResources_resolveContainers, hown.allResources_bare]
  have hvars : own.resolveContainers.bare.vars = own.vars := vars_resolveContainers own
  have hresolved : own.resolveContainers.bare.resolveContainers = own.resolveContainers.bare := by
    rw [resolveContainers_bare, resolveContainers_resolveContainers]
  refine ⟨⟨_, hp, ?_⟩, List.countP_le_length, fun a ha t ht => ?_, fun hnone => ?_, fun name => ?_,
    fun kind => ?_, ?_⟩
  · have hstages := congrArg stages hresolved
    rw [resolveContainers_eq] at hstages
    exact hstages.symm
  · rw [List.mem_singleton.mp ha] at ht ⊢
    exact hvars ▸ hown.vars t ht
  · exact hvars ▸ hown.noVars (hnone d List.mem_cons_self)
  · rw [hresources, List.reverse_singleton, List.findSome?_singleton]
    rfl
  · rw [hresources]
    exact Option.merge_none_right.symm
  · exact hresources ▸ hregular.orderly.bare

variable (hnext : Merged d' ds base) (hmerge : own.bare.merge base = .ok merged)

include hnext hmerge

/-- The stages are resolved with what the document adds to the resources. -/
theorem Merged.stages_cons : ∃ q, CanReturn ((d' :: ds).getLastD d).compose q ∧
    merged.resolveContainers.stages =
      q.bare.stages.map (·.map (Stage.withResources merged.resolveContainers.resources)) := by
  obtain ⟨hstages, -, -, hnone, hresources⟩ := merge_eq_ok hmerge
  obtain ⟨q, hq, hbase⟩ := hnext.stages
  have hresolve (s : Stage) :
      (s.withResources base.resources).withResources merged.resources =
        s.withResources merged.resources := by
    cases hb : base.resources with
    | none => rfl
    | some rb =>
        cases hm : merged.resources with
        | none => rw [hnone hm] at hb; cases hb
        | some rm =>
            refine Stage.withResources_of_covers (fun name resource hfound => ?_) s
            have hlookup := container?_mergeResources hnext.orderly hresources name
            simp only [allResources, hb, hm, Option.getD_some] at hlookup
            rw [hlookup, hfound]
            rfl
  rw [List.getLastD_cons]
  refine ⟨q, hq, ?_⟩
  rw [resources_resolveContainers, resolveContainers_eq]
  simp only [hstages, hbase, Option.map_map, List.map_map, Function.comp_def, hresolve]

/-- The variables are those of the document, or of one that it extends. -/
theorem Merged.vars_cons (hown : d.Owns own) : (d :: d' :: ds).countP Document.declaresVariables ≤ 1 ∧
    (∀ a ∈ d :: d' :: ds, ∀ t, a.section? "variables" = some t →
      ReadsVariables (references a.depth) a.context t merged.vars) ∧
    ((∀ a ∈ d :: d' :: ds, a.section? "variables" = none) → merged.vars = none) := by
  obtain ⟨-, hapart, hvars, -, -⟩ := merge_eq_ok hmerge
  change own.vars = none ∨ base.vars = none at hapart
  change merged.vars = base.vars.or own.vars at hvars
  cases hdeclares : d.section? "variables" with
  | none =>
      have hsame : merged.vars = base.vars := by
        rw [hvars, hown.noVars hdeclares, Option.or_none]
      refine ⟨?_, fun a ha t ht => ?_, fun hnone => ?_⟩
      · rw [List.countP_cons_of_neg (by simp [Document.declaresVariables, hdeclares])]
        exact hnext.once
      · rcases List.mem_cons.mp ha with rfl | ha
        · rw [hdeclares] at ht
          cases ht
        · exact hsame ▸ hnext.vars a ha t ht
      · exact hsame.trans (hnext.noVars fun a ha => hnone a (List.mem_cons_of_mem _ ha))
  | some t =>
      obtain ⟨vars, hreturn, hset⟩ := hown.vars t hdeclares
      have hbase : base.vars = none := hapart.resolve_left (by rw [hset]; exact nofun)
      have hsame : merged.vars = some vars := by rw [hvars, hbase, hset, Option.none_or]
      have hquiet : ∀ a ∈ d' :: ds, a.section? "variables" = none := by
        intro a ha
        cases hfound : a.section? "variables" with
        | none => rfl
        | some t =>
            obtain ⟨_, -, hsome⟩ := hnext.vars a ha t hfound
            rw [hbase] at hsome
            cases hsome
      refine ⟨?_, fun a ha t' ht' => ?_, fun hnone => ?_⟩
      · have hzero : (d' :: ds).countP Document.declaresVariables = 0 :=
          List.countP_eq_zero.mpr fun a ha => by
            simp [Document.declaresVariables, hquiet a ha]
        rw [List.countP_cons, hzero]
        split <;> decide
      · rcases List.mem_cons.mp ha with rfl | ha
        · cases hdeclares.symm.trans ht'
          exact ⟨vars, hreturn, hsame⟩
        · rw [hquiet a ha] at ht'
          cases ht'
      · rw [hnone d List.mem_cons_self] at hdeclares
        cases hdeclares

/-- **One document more is merged with what it extends.** -/
theorem Merged.cons (hown : d.Owns own) (hregular : d.Regular) :
    Merged d (d' :: ds) merged.resolveContainers := by
  have hvars := Merged.vars_cons hnext hmerge hown
  obtain ⟨-, -, -, -, hresources⟩ := merge_eq_ok hmerge
  have horderly : own.bare.allResources.Orderly :=
    hown.allResources_bare ▸ hregular.orderly.bare
  refine ⟨Merged.stages_cons hnext hmerge, hvars.1, ?_, ?_, fun name => ?_,
    fun kind => ?_, ?_⟩
  · exact (vars_resolveContainers merged).symm ▸ hvars.2.1
  · exact (vars_resolveContainers merged).symm ▸ hvars.2.2
  · have hreverse : (d :: d' :: ds).reverse = (d' :: ds).reverse ++ [d] := List.reverse_cons
    rw [allResources_resolveContainers, container?_mergeResources hnext.orderly hresources,
      hnext.container?, hown.allResources_bare, hreverse, List.findSome?_append,
      List.findSome?_singleton]
    rfl
  · rw [allResources_resolveContainers, items?_mergeResources horderly hnext.orderly hresources,
      hnext.items?, hown.allResources_bare]
    rfl
  · rw [allResources_resolveContainers]
    exact orderly_mergeResources horderly hnext.orderly hresources

end Step

/-- What a chain is composed to is what its documents are merged to. -/
theorem Chain.merged {d : Document} {ds : List Document} (h : Chain d ds)
    (hregular : ∀ a ∈ d :: ds, a.Regular) {p : Pipeline} (hp : CanReturn d.compose p) :
    Merged d ds p.bare := by
  induction h generalizing p with
  | last hnone =>
      obtain ⟨own, hown, hlast, -⟩ := Document.run_compose hp
      obtain rfl := hlast hnone
      exact merged_last hown (hregular _ List.mem_cons_self) hp
  | @«extends» d d' ds hextends hchain ih =>
      obtain ⟨hfirst, hrest⟩ := List.forall_mem_cons.mp hregular
      obtain ⟨own, hown, -, hextended⟩ := Document.run_compose hp
      obtain ⟨-, t, -, -, -, ht, -⟩ := id hextends
      obtain ⟨base, merged, hbase, hmerge, rfl⟩ := hextended t ht
      obtain ⟨base', hbase', hsame⟩ := hextends.exists_base ht hbase
      have hnext : Merged d' ds base.bare := hsame ▸ ih hrest hbase'
      have hmerge' : own.bare.merge base.bare = .ok merged.bare := by
        rw [merge_bare, hmerge]
        rfl
      rw [← resolveContainers_bare]
      exact Merged.cons hnext hmerge' hown hfirst

/-- **Documents that extend one another are merged**, however many there are: what is composed has the
stages of the last one, the variables of the only one that declares some, for every alias the container
of the last one that declares it, and all other resources in their order. If two of them declare
variables, nothing is composed. -/
theorem merged_of_chain {d : Document} {ds : List Document} (hchain : Chain d ds)
    (hregular : ∀ a ∈ d :: ds, a.Regular) :
    (∀ j p j', d.compose.run.run j = some (.ok p, j') → Merged d ds p.bare) ∧
    (2 ≤ (d :: ds).countP Document.declaresVariables →
      ∀ j p j', d.compose.run.run j ≠ some (.ok p, j')) := by
  have hmerged (j : Journal) (p : Pipeline) (j' : Journal)
      (hrun : d.compose.run.run j = some (.ok p, j')) : Merged d ds p.bare :=
    hchain.merged hregular ⟨j, j', hrun⟩
  refine ⟨hmerged, fun htwo j p j' hrun => ?_⟩
  have honce := (hmerged j p j' hrun).once
  omega

/-! ### Finding a chain -/

/-- What a step returns that is the first of a load. -/
def firstReturn? {α : Type} (step : Resolve α) : Option α :=
  match step.run.run {} with
  | some (.ok a, _) => some a
  | _ => none

theorem canReturn_of_firstReturn? {α : Type} {step : Resolve α} {a : α}
    (h : firstReturn? step = some a) : CanReturn step a := by
  unfold firstReturn? at h
  split at h
  · next hrun =>
    cases h
    exact ⟨_, _, hrun⟩
  · cases h

/-- The document that another extends, as a load finds it that has read nothing before. -/
def Document.extended? (d : Document) : Option Document :=
  match d.depth, d.section? "extends" with
  | depth + 1, some t => do
    let (template, parameters) ← (extensionOf t).toOption
    let loaded ← firstReturn?
      (readTemplate (references depth) d.context template parameters Schema.extendRoot)
    return ⟨depth, ← (withOwnRepositories loaded).toOption, loaded.token⟩
  | _, _ => none

theorem Document.extends_of_extended? {d d' : Document} (h : d.extended? = some d') :
    d.Extends d' := by
  unfold extended? at h
  split at h
  · next depth t hdepth ht =>
    obtain ⟨⟨template, parameters⟩, hx, h⟩ := Option.bind_eq_some_iff.mp h
    obtain ⟨loaded, hload, h⟩ := Option.bind_eq_some_iff.mp h
    obtain ⟨context, hcontext, h⟩ := Option.bind_eq_some_iff.mp h
    cases h
    exact ⟨hdepth, t, template, parameters, loaded, ht, toOption_eq_some.mp hx,
      canReturn_of_firstReturn? hload, toOption_eq_some.mp hcontext, rfl⟩
  · cases h

/-- The documents that a document extends, if there are fewer than a number of them. -/
def Document.chain? : Nat → Document → Option (List Document)
  | 0, _ => none
  | n + 1, d =>
    match d.section? "extends" with
    | none => some []
    | some _ => do
      let d' ← d.extended?
      return d' :: (← chain? n d')

theorem chain_of_chain? {n : Nat} {d : Document} {ds : List Document} (h : d.chain? n = some ds) :
    Chain d ds := by
  induction n generalizing d ds with
  | zero => cases h
  | succ n ih =>
      unfold Document.chain? at h
      split at h
      · next hnone =>
        cases h
        exact .last hnone
      · obtain ⟨d', hd', h⟩ := Option.bind_eq_some_iff.mp h
        obtain ⟨rest, hrest, h⟩ := Option.bind_eq_some_iff.mp h
        cases h
        exact .extends (Document.extends_of_extended? hd') (ih hrest)

instance (d : Document) : Decidable d.Regular :=
  decidable_of_iff ((d.resources.containers.map Container.slot).Nodup ∧
    ∀ e ∈ d.resources.other, e.2.items?.isSome) ⟨fun h => ⟨h.1, h.2⟩, fun h => ⟨h.1, h.2⟩⟩

/-- A build with a container, a nightly build that extends it, and variables. -/
def buildFiles : Context where
  files := Files.inMemory
    [⟨none, "build.yml",
        "resources:\n  containers:\n  - container: Rust\n    image: rust:1.80\n" ++
        "stages:\n- stage: build\n  jobs:\n  - job: make\n    container: rust\n"⟩,
      ⟨none, "nightly.yml",
        "variables:\n  level: 1\nresources:\n  webhooks:\n  - webhook: night\n" ++
        "extends:\n  template: build.yml\n"⟩,
      ⟨none, "levels.yml", "variables:\n  level: 1\n"⟩]
  schema := .standard

/-- A document that extends one of these. -/
def buildUser (path : String) (more : List (String × Token)) : Document where
  depth := 3
  context := buildFiles
  root := .mapping .unknown <|
    (("extends", .ofPairs [("template", .ofText path)]) :: more).map madeEntry

/-- A document that extends the nightly build, with a container and a webhook of its own. -/
def nightlyUser : Document :=
  buildUser "nightly.yml" [("resources", .ofPairs [
    ("containers", .ofItems [.ofPairs [("container", .ofText "rust"), ("image", .ofText "rust:1")]]),
    ("webhooks", .ofItems [.ofPairs [("webhook", .ofText "day")]])])]

/-- A document with variables that extends one with variables. -/
def levelsUser : Document :=
  buildUser "levels.yml" [("variables", .ofPairs [("level", .ofInt 2)])]

/-- The nightly build is merged with what it extends; two documents with variables are not. -/
theorem merged_nightlyUser :
    (∃ ds p j', Chain nightlyUser ds ∧ ds.length = 2 ∧
      nightlyUser.compose.run.run {} = some (.ok p, j') ∧ Merged nightlyUser ds p.bare) ∧
    ∃ ds, Chain levelsUser ds ∧ ds.length = 1 ∧
      ∀ j p j', levelsUser.compose.run.run j ≠ some (.ok p, j') := by
  constructor
  · have hfound : (nightlyUser.chain? 3).any (fun ds =>
        decide ((∀ a ∈ nightlyUser :: ds, a.Regular) ∧ ds.length = 2)) = true := by
      decide +kernel
    have hread : (nightlyUser.compose.run.run {}).any (·.1.isOk) = true := by decide +kernel
    rw [Option.any_eq_true] at hfound hread
    obtain ⟨ds, hds, hdecided⟩ := hfound
    obtain ⟨hregular, hlength⟩ := of_decide_eq_true hdecided
    obtain ⟨⟨outcome, j'⟩, hrun, hok⟩ := hread
    have hchain := chain_of_chain? hds
    cases outcome with
    | error d => cases hok
    | ok p =>
        exact ⟨ds, p, j', hchain, hlength, hrun, (merged_of_chain hchain hregular).1 _ _ _ hrun⟩
  · have hfound : (levelsUser.chain? 2).any (fun ds =>
        decide ((∀ a ∈ levelsUser :: ds, a.Regular) ∧ ds.length = 1 ∧
          2 ≤ (levelsUser :: ds).countP Document.declaresVariables)) = true := by
      decide +kernel
    rw [Option.any_eq_true] at hfound
    obtain ⟨ds, hds, hdecided⟩ := hfound
    obtain ⟨hregular, hlength, htwo⟩ := of_decide_eq_true hdecided
    have hchain := chain_of_chain? hds
    exact ⟨ds, hchain, hlength, (merged_of_chain hchain hregular).2 htwo⟩

end PipelineExpansion.Pipeline
