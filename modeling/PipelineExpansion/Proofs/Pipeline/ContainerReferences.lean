import PipelineExpansion.Proofs.Pipeline.Root
import PipelineExpansion.Proofs.Pipeline.TokenForm

/-!
# References to container resources

A job names an image, or a container resource by its alias, and so do its services. What is found under a
name has an alias and so is no mere name itself. Hence, when the references of a pipeline have been
resolved, each name that is left is that of no resource, and to resolve them again changes nothing. A
pipeline that extends another resolves the references that the other has left.

## Main results

* `Resources.resolve_resolve`: a container is resolved once.
* `settled_of_run`: in a pipeline that is composed no reference is left to a resource of the pipeline.
-/

namespace PipelineExpansion.Pipeline

open Template (Context Entry Journal Resolve Token)
open Template.Resolve

variable {refs : References} {c : Context} {t : Token} {p : Pipeline} {r : Resources}
  {container resource : Container} {name : String} {j j' : Journal}

/-! ### One container -/

/-- A container has the name of a resource. -/
def Container.Names (container resource : Container) : Prop :=
  ∃ aliasName, resource.aliasName = some aliasName ∧
    Text.sameName aliasName (container.image.getD "")

/-- What has an alias is more than a name. -/
theorem Container.isReference_of_aliasName (h : container.aliasName = some name) :
    container.isReference = false := by
  have hne : container ≠ { image := container.image } := by
    intro heq
    rw [heq] at h
    cases h
  simp [isReference, hne]

theorem Resources.exists_aliasName (h : r.container? name = some resource) :
    ∃ aliasName, resource.aliasName = some aliasName ∧ Text.sameName aliasName name := by
  have hany := List.find?_some h
  rw [Option.any_eq_true] at hany
  exact hany

theorem Resources.isReference_of_container? (h : r.container? name = some resource) :
    resource.isReference = false := by
  obtain ⟨aliasName, halias, -⟩ := exists_aliasName h
  exact Container.isReference_of_aliasName halias

theorem Resources.resolve_of_not_isReference (h : container.isReference = false) :
    r.resolve container = container := by
  rw [resolve, h]
  rfl

theorem Resources.resolve_of_container? (h : container.isReference = true)
    (hfound : r.container? (container.image.getD "") = some resource) :
    r.resolve container = resource := by
  rw [resolve, if_pos h, hfound]
  rfl

theorem Resources.resolve_of_container?_eq_none
    (hnone : r.container? (container.image.getD "") = none) : r.resolve container = container := by
  rw [resolve, hnone]
  split <;> rfl

/-- A reference that is left names nothing. -/
theorem Resources.container?_of_isReference (h : (r.resolve container).isReference = true) :
    r.resolve container = container ∧ r.container? (container.image.getD "") = none := by
  cases hreference : container.isReference with
  | false =>
      rw [resolve_of_not_isReference hreference, hreference] at h
      cases h
  | true =>
      cases hfound : r.container? (container.image.getD "") with
      | none => exact ⟨resolve_of_container?_eq_none hfound, rfl⟩
      | some resource =>
          rw [resolve_of_container? hreference hfound, isReference_of_container? hfound] at h
          cases h

/-- Every name under which there is a container finds the same one among other resources. -/
def Resources.Covers (r r' : Resources) : Prop :=
  ∀ name resource, r'.container? name = some resource → r.container? name = some resource

/-- What has been resolved is resolved as it was written, with resources that cover the first. -/
theorem Resources.Covers.resolve_resolve {r r' : Resources} (h : r.Covers r')
    (container : Container) : r.resolve (r'.resolve container) = r.resolve container := by
  cases hreference : container.isReference with
  | false => rw [resolve_of_not_isReference hreference]
  | true =>
      cases hfound : r'.container? (container.image.getD "") with
      | none => rw [resolve_of_container?_eq_none hfound]
      | some resource =>
          rw [resolve_of_container? hreference hfound, resolve_of_container? hreference (h _ _ hfound)]
          exact resolve_of_not_isReference (isReference_of_container? hfound)

/-- **A container is resolved once.** -/
theorem Resources.resolve_resolve (r : Resources) (container : Container) :
    r.resolve (r.resolve container) = r.resolve container :=
  Covers.resolve_resolve (fun _ _ h => h) container

theorem Resources.not_names_of_isReference (h : (r.resolve container).isReference = true)
    (hresource : resource ∈ r.containers) : ¬ (r.resolve container).Names resource := by
  obtain ⟨hsame, hnone⟩ := container?_of_isReference h
  rintro ⟨aliasName, halias, hname⟩
  rw [hsame] at hname
  refine List.find?_eq_none.mp hnone resource hresource ?_
  rw [halias]
  exact hname

/-! ### Pipelines -/

/-- The container and the services of a job. -/
def Job.containers (j : Job) : List Container :=
  j.container.toList ++ (j.services.getD []).map (·.2)

/-- The containers and the services of all jobs. -/
def usedContainers (p : Pipeline) : List Container :=
  (p.stages.getD []).flatMap fun s => (s.jobs.getD []).flatMap Job.containers

theorem Job.containers_resolveContainers (r : Resources) (j : Job) :
    (Job.resolveContainers r j).containers = j.containers.map r.resolve := by
  rcases j with ⟨_, _, _, _, _, _, _, _ | container, _, _, _, _ | services, _⟩ <;>
    simp [containers, resolveContainers, Function.comp_def]

theorem Job.resolveContainers_of_covers {r r' : Resources} (h : r.Covers r') (j : Job) :
    Job.resolveContainers r (Job.resolveContainers r' j) = Job.resolveContainers r j := by
  simp [resolveContainers, h.resolve_resolve, Function.comp_def]

theorem Job.resolveContainers_resolveContainers (r : Resources) (j : Job) :
    Job.resolveContainers r (Job.resolveContainers r j) = Job.resolveContainers r j :=
  resolveContainers_of_covers (fun _ _ h => h) j

theorem usedContainers_resolveContainers (h : p.resources = some r) :
    p.resolveContainers.usedContainers = p.usedContainers.map r.resolve := by
  have hstage (s : Stage) :
      ((s.jobs.map fun jobs => jobs.map (Job.resolveContainers r)).getD []).flatMap Job.containers =
        ((s.jobs.getD []).flatMap Job.containers).map r.resolve := by
    cases s.jobs <;>
      simp [List.flatMap_map, List.map_flatMap, Job.containers_resolveContainers]
  rw [resolveContainers, h]
  cases hstages : p.stages <;>
    simp [usedContainers, hstages, List.flatMap_map, List.map_flatMap, hstage]

theorem resources_resolveContainers (p : Pipeline) : p.resolveContainers.resources = p.resources := by
  unfold resolveContainers
  split <;> rfl

theorem resolveContainers_resolveContainers (p : Pipeline) :
    p.resolveContainers.resolveContainers = p.resolveContainers := by
  cases h : p.resources with
  | none => rw [resolveContainers, resources_resolveContainers, h]
  | some r =>
      rw [resolveContainers.eq_1 p, h]
      simp [resolveContainers, Function.comp_def, Job.resolveContainers_resolveContainers]

/-- The references of what is composed have been resolved. -/
theorem yields_resolved (refs : References) (c : Context) (t : Token) :
    Yields (ofToken? refs c t) fun p => ∃ q : Pipeline, p = q.resolveContainers := by
  refine yields_bind_of_forall fun entries => yields_bind_of_forall fun d =>
    yields_bind_of_forall fun stages => ?_
  dsimp only
  split
  · exact yields_pure ⟨_, rfl⟩
  · exact yields_bind_of_forall fun merged => yields_pure ⟨merged, rfl⟩

/-- **No reference to a container resource is left** in a pipeline that is composed, whatever pipeline it
extends: the name of an image is that of no resource of the pipeline. To resolve the references again
changes nothing. -/
theorem settled_of_run (hrun : (ofToken? refs c t).run.run j = some (.ok p, j')) :
    (∀ container ∈ p.usedContainers, container.isReference = true →
      ∀ r ∈ p.resources, ∀ resource ∈ r.containers, ¬ container.Names resource) ∧
    p.resolveContainers = p := by
  obtain ⟨q, rfl⟩ := yields_resolved refs c t j p j' hrun
  refine ⟨fun container hmem href r hr resource hresource => ?_, resolveContainers_resolveContainers q⟩
  rw [resources_resolveContainers] at hr
  rw [usedContainers_resolveContainers hr] at hmem
  obtain ⟨written, -, rfl⟩ := List.mem_map.mp hmem
  exact Resources.not_names_of_isReference href hresource

/-- A pipeline that leaves the names of two containers, under whatever reference. -/
def toolchainUser : References :=
  { References.none with
    pipeline := fun _ _ _ => return { stages := some [{ jobs := some [{
      container := some { image := some "Rust" }
      services := some [("cache", { image := some "redis" })] }] }] } }

/-- A root that extends it, and has a resource for one of them. -/
def toolchainRoot : Token :=
  .mapping .unknown <|
    [("resources", .ofPairs [("containers", .ofItems [.ofPairs
        [("container", .ofText "rust"), ("image", .ofText "rust:1.80")]])]),
      ("extends", .ofPairs [("template", .ofText "base.yml")])].map madeEntry

/-- The container of the job is the resource then, and the service is an image. -/
theorem settled_toolchainRoot :
    ∃ p : Pipeline,
      (ofToken? toolchainUser noFiles toolchainRoot).run.run {} = some (.ok p, {}) ∧
      p.usedContainers =
        [{ aliasName := some "rust", image := some "rust:1.80" }, { image := some "redis" }] ∧
      (∀ container ∈ p.usedContainers, container.isReference = true →
        ∀ r ∈ p.resources, ∀ resource ∈ r.containers, ¬ container.Names resource) ∧
      p.resolveContainers = p := by
  have hrun : ∃ p : Pipeline,
      (ofToken? toolchainUser noFiles toolchainRoot).run.run {} = some (.ok p, {}) ∧
      p.usedContainers =
        [{ aliasName := some "rust", image := some "rust:1.80" }, { image := some "redis" }] :=
    ⟨_, rfl, rfl⟩
  obtain ⟨p, hrun, hused⟩ := hrun
  exact ⟨p, hrun, hused, settled_of_run hrun⟩

end PipelineExpansion.Pipeline
