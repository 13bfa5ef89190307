import PipelineExpansion.Pipeline.Load
import PipelineExpansion.Proofs.Pipeline.Retrace
import PipelineExpansion.Proofs.Pipeline.Root

/-!
# Composing again what extends another

A pipeline that extends another composes that one in the middle of its own root, in the context of the
document that it is found in. What that document is read to carries the numbers of its file, and nothing
else does. So merging commutes with taking the numbers away, and the whole is composed again as its parts
are.

## Main results

* `merge_bare`: pipelines are merged in the same way without the numbers of files.
* `retraces_ofToken?`: a root is composed again, whatever it extends.
* `extending_references`: what references yield they yield again, pipelines among it.
-/

namespace PipelineExpansion.Pipeline

open Template (Context Entry Key Resolve Token bareEntry bareEntry_mk)
open Template.Resolve

variable {maximum : Nat} {refs refs' : References} {c : Context} {t t' : Token} {e e' : Entry}
  {entries entries' : List Entry}

/-! ### Sections that extend -/

@[simp] theorem checkExtensionKeys_bare (entries : List Entry) :
    checkExtensionKeys (entries.map bareEntry) = checkExtensionKeys entries := by
  rcases entries with _ | ⟨first, _ | ⟨second, _ | ⟨third, rest⟩⟩⟩ <;> rfl

/-- A section that extends, without the numbers of files. -/
def Extension.bare (x : Extension) : Extension :=
  { x with parameters := x.parameters.map Token.bare }

@[simp] theorem Extension.read_bare (x : Extension) (e : Entry) :
    x.bare.read (bareEntry e) = Extension.bare <$> x.read e := by
  obtain ⟨⟨o, name⟩, value⟩ := e
  simp only [Extension.read, bareEntry_mk, Key.name_bare]
  split <;> simp [Extension.bare]

/-- What is extended, and with which parameters, without the numbers of files. -/
def bareReference (r : String × Option Token) : String × Option Token :=
  (r.1, r.2.map Token.bare)

@[simp] theorem extensionOf_bare (t : Token) :
    extensionOf t.bare = bareReference <$> extensionOf t := by
  have hread (entries : List Entry) : (entries.map bareEntry).foldlM Extension.read {} =
      Extension.bare <$> entries.foldlM Extension.read {} :=
    Template.foldlM_hom Extension.read_bare entries {}
  simp only [extensionOf, Token.expectMapping_bare, bind_map_left, map_bind, checkExtensionKeys_bare,
    hread]
  refine congrArg _ (funext fun entries => congrArg _ (funext fun _ => ?_))
  refine congrArg _ (funext fun x => ?_)
  rcases x with ⟨_ | template, parameters⟩
  · rw [Token.fault_bare]
    rfl
  · rfl

@[simp] theorem repositoryAlias_bare (t : Token) : repositoryAlias t.bare = repositoryAlias t := by
  simp only [repositoryAlias, Token.get?_bare]
  cases t.get? "repository" with
  | none => rfl
  | some aliasName => cases t.get? "name" <;> cases t.get? "ref" <;> simp

@[simp] theorem repositoryAliases_bare (t : Token) : repositoryAliases t.bare = repositoryAliases t := by
  have hfound : (t.bare.get? "resources").bind (·.get? "repositories") =
      ((t.get? "resources").bind (·.get? "repositories")).map Token.bare := by
    rw [Token.get?_bare]
    cases t.get? "resources" <;> simp
  rw [repositoryAliases, hfound, repositoryAliases]
  cases (t.get? "resources").bind (·.get? "repositories") with
  | none => rfl
  | some repositories => simp [List.mapM_map, Function.comp_def]

/-! ### Merging -/

/-- Resources of some kind without the numbers of files. -/
def bareKind (e : String × Token) : String × Token := (e.1, e.2.bare)

@[simp] theorem addOther_bare (other : Dictionary Token) (e : String × Token) :
    addOther (other.map bareKind) (bareKind e) = List.map bareKind <$> addOther other e := by
  obtain ⟨kind, added⟩ := e
  have hfind : Dictionary.find? (other.map bareKind) kind = (other.find? kind).map Token.bare :=
    Dictionary.find?_map Token.bare other kind
  have hput (t : Token) : Dictionary.put (other.map bareKind) kind t.bare =
      (Dictionary.put other kind t).map bareKind := Resources.put_bare other kind t
  dsimp only [addOther, bareKind]
  rw [hfind]
  cases other.find? kind with
  | none => exact congrArg Except.ok (hput added)
  | some present =>
      simp only [Option.map_some, Token.expectSequence_bare, bind_map_left, map_bind, map_pure,
        Token.origin_bare, ← List.map_append, ← Token.bare_sequence, hput]

@[simp] theorem mergeResources_bare (own base : Resources) :
    mergeResources own.bare base.bare = Resources.bare <$> mergeResources own base := by
  have hother : (base.other.map bareKind).foldlM addOther (own.other.map bareKind) =
      List.map bareKind <$> base.other.foldlM addOther own.other :=
    Template.foldlM_hom addOther_bare base.other own.other
  have hbare (r : Resources) : r.bare = ⟨r.containers, r.other.map bareKind⟩ := rfl
  simp only [hbare, mergeResources, hother, bind_map_left, map_bind, map_pure]

@[simp] theorem merge_bare (p base : Pipeline) : p.bare.merge base.bare = bare <$> p.merge base := by
  rcases p with ⟨name, vars, resources, stages, rest⟩
  rcases base with ⟨baseName, baseVars, _ | r, baseStages, baseRest⟩
  · cases vars <;> cases baseVars <;> rfl
  · have hown : (resources.map Resources.bare).getD {} = (resources.getD {}).bare := by
      cases resources <;> rfl
    have hmerged := mergeResources_bare (resources.getD {}) r
    simp only [merge, bare, Option.map_some, hown, hmerged]
    cases mergeResources (resources.getD {}) r with
    | error d => rfl
    | ok merged => cases vars <;> cases baseVars <;> rfl

@[simp] theorem Draft.finish_bare (d : Draft) (stages : Option (List Stage)) :
    d.bare.finish (stages.map (·.map Stage.bare)) = Pipeline.bare <$> d.finish stages := by
  rcases d with ⟨p, _ | base, implicit, left⟩
  · exact congrArg Except.ok (resolveContainers_bare { p with stages := stages })
  · have hfinish (d : Draft) (hbase : d.base = some base) : d.finish stages =
        merge { d.pipeline with stages := stages } base >>= fun merged =>
          pure merged.resolveContainers := by
      rw [finish, hbase]
    have hbare : Draft.finish (Draft.bare ⟨p, some base, implicit, left⟩)
        (stages.map (·.map Stage.bare)) =
        (Pipeline.bare { p with stages := stages }).merge base.bare >>= fun merged =>
          pure merged.resolveContainers := rfl
    rw [hfinish _ rfl, hbare, merge_bare]
    simp only [bind_map_left, map_bind, map_pure, resolveContainers_bare]

/-! ### Roots -/

/-- References that yield again what others yield, pipelines among it, up to the numbers of files. -/
structure Extending (maximum : Nat) (refs refs' : References) : Prop
    extends Retraced maximum refs refs' where
  pipeline : ∀ {c : Context}, c.limits.maxFiles = maximum → ∀ (reference : String)
    {parameters parameters' : Option Token},
    parameters.map Token.bare = parameters'.map Token.bare →
    Retraces maximum Pipeline.bare (refs.pipeline c reference parameters)
      (refs'.pipeline c reference parameters')

/-- An entry of a root is read again. -/
theorem retraces_readRoot (h : Extending c.limits.maxFiles refs refs') {d d' : Draft}
    (hd : d.bare = d'.bare) (he : bareEntry e = bareEntry e') :
    Retraces c.limits.maxFiles Draft.bare (d.read refs c e) (d'.read refs' c e') := by
  by_cases hextends : e.1.name = "extends"
  · obtain ⟨⟨o, name⟩, value⟩ := e
    obtain ⟨⟨o', name'⟩, value'⟩ := e'
    obtain rfl : name = name' := name_eq_of_bare he
    obtain rfl : name = "extends" := hextends
    refine (retraces_of_bare extensionOf_bare (value_eq_of_bare he)).bind ?_
    rintro ⟨template, parameters⟩ ⟨template', parameters'⟩ hreference
    obtain ⟨rfl, hparameters⟩ := Prod.mk.inj hreference
    refine (h.pipeline rfl template hparameters).map fun base base' hbase => ?_
    have hset : ({ d.bare with base := some base.bare } : Draft) =
        { d'.bare with base := some base'.bare } := by
      rw [hd, hbase]
    exact hset
  · exact retraces_readDraft h.toRetraced hd he hextends

/-- The stages that the left-over entries of a root make are made again. -/
theorem retraces_implicitStages (h : Retraced c.limits.maxFiles refs refs') {d d' : Draft}
    (hd : d.bare = d'.bare) {o o' : Template.Origin} (ho : o.bare = o'.bare) :
    Retraces c.limits.maxFiles (Option.map (List.map Stage.bare)) (d.implicitStages refs c o)
      (d'.implicitStages refs' c o') := by
  have himplicit : d.implicit = d'.implicit := (congrArg Draft.implicit hd :)
  have hleft : d.left.map bareEntry = d'.left.map bareEntry := (congrArg Draft.left hd :)
  have hstages : d.pipeline.stages.map (·.map Stage.bare) = d'.pipeline.stages.map (·.map Stage.bare) :=
    (congrArg (·.pipeline.stages) hd :)
  have hrest : (Token.mapping o d.left).bare = (Token.mapping o' d'.left).bare := by
    rw [Token.bare_mapping, Token.bare_mapping, ho, hleft]
  unfold Draft.implicitStages
  rw [himplicit]
  cases d'.implicit with
  | nothing => exact retraces_pure hstages
  | job =>
      refine (retraces_job h hrest true).map fun job job' hjob => ?_
      have hname : { job.bare with name := none } = { job'.bare with name := none } := by rw [hjob]
      exact congrArg (fun job : Job => some [({ jobs := some [job] } : Stage)]) hname
  | stage =>
      refine (retraces_stage h hrest true).map fun stage stage' hstage => ?_
      have hname : { stage.bare with name := none } = { stage'.bare with name := none } := by
        rw [hstage]
      exact congrArg (fun stage : Stage => some [stage]) hname

theorem retraces_finish {d d' : Draft} (hd : d.bare = d'.bare) {stages stages' : Option (List Stage)}
    (hstages : stages.map (·.map Stage.bare) = stages'.map (·.map Stage.bare)) :
    Retraces maximum Pipeline.bare (Resolve.ofExcept (d.finish stages))
      (Resolve.ofExcept (d'.finish stages')) := by
  refine retraces_ofExcept ?_
  rw [← Draft.finish_bare, ← Draft.finish_bare, hd, hstages]

/-- **A root is composed again**, whatever it extends. -/
theorem retraces_ofToken? (h : Extending c.limits.maxFiles refs refs') (ht : t.bare = t'.bare) :
    Retraces c.limits.maxFiles Pipeline.bare (ofToken? refs c t) (ofToken? refs' c t') := by
  have horigin : t.origin.bare = t'.origin.bare := by
    rw [← Token.origin_bare, ht, Token.origin_bare]
  rw [ofToken?_eq_finish, ofToken?_eq_finish]
  refine (retraces_expectMapping ht _).bind fun entries entries' hentries => ?_
  have hread := retraces_entries (fun _ _ _ _ hd he => retraces_readRoot h hd he) hentries
    (rfl : Draft.bare {} = Draft.bare {})
  refine hread.bind fun d d' hd => ?_
  exact (retraces_implicitStages h.toRetraced hd horigin).bind fun stages stages' hstages =>
    retraces_finish hd hstages

/-! ### References to pipelines -/

/-- A pipeline that is referred to: the template, the repositories that it declares, its root. -/
theorem pipelineOf_eq (refs : References) (c : Context) (reference : String)
    (parameters : Option Token) (definition : String) :
    pipelineOf refs c reference parameters definition =
      readTemplate refs c reference parameters definition >>= fun loaded =>
        Resolve.ofExcept (repositoryAliases loaded.token) >>= fun own =>
          Resolve.inFile loaded.name (ofToken? refs (loaded.context.withRepositories own) loaded.token) := by
  unfold pipelineOf
  refine congrArg _ (funext fun loaded => ?_)
  unfold withOwnRepositories
  cases repositoryAliases loaded.token <;> rfl

theorem retraces_pipelineOf (h : Extending c.limits.maxFiles refs refs') (reference : String)
    {parameters parameters' : Option Token}
    (hparameters : parameters.map Token.bare = parameters'.map Token.bare) (definition : String) :
    Retraces c.limits.maxFiles Pipeline.bare (pipelineOf refs c reference parameters definition)
      (pipelineOf refs' c reference parameters' definition) := by
  rw [pipelineOf_eq, pipelineOf_eq]
  refine retraces_withTemplate h.toRetraced reference hparameters definition ?_
  intro loaded loaded' hloaded hlimits
  have hcontext : loaded.context = loaded'.context := (congrArg Loaded.context hloaded :)
  have htoken : loaded.token.bare = loaded'.token.bare := (congrArg Loaded.token hloaded :)
  rw [← hcontext]
  refine (retraces_of_same repositoryAliases_bare htoken).then fun own => ?_
  have hmaximum : (loaded.context.withRepositories own).limits.maxFiles = c.limits.maxFiles :=
    congrArg Template.Limits.maxFiles hlimits
  rw [← hmaximum] at h ⊢
  exact (retraces_ofToken? h htoken).inFile _ _

/-- **What references yield they yield again**, pipelines among it. -/
theorem extending_references (maximum n depth : Nat) :
    Extending maximum (references n) (references (n + depth)) := by
  induction n with
  | zero => exact ⟨retraced_none maximum _, fun _ _ _ _ _ => retraces_unfinished _⟩
  | succ n ih =>
      refine ⟨retraced_references maximum (n + 1) depth, fun hc reference _ _ hparameters => ?_⟩
      rw [Nat.succ_add]
      subst hc
      exact retraces_pipelineOf ih reference hparameters _

end PipelineExpansion.Pipeline
