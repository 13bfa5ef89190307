import PipelineExpansion.BuildProcess.Document
import PipelineExpansion.Proofs.Yaml.Node

/-!
# Readers of build processes stay in their node

The readers of steps, variables, phases and documents follow the structure of what they read: after the
start of a mapping its entries, a key and a value each, up to its end. So each of them reads a node.

## Main results

* `staysIn_of_isNode`: the readers of graphs, texts, steps, overrides, phases, variables and documents
  take exactly the node at hand if they succeed, and see nothing behind it if they fail.
-/

namespace PipelineExpansion.BuildProcess

open Yaml

/-! ### Tasks -/

theorem idle_unexpectedProperty {α : Type} (key : Scalar) :
    Idle (unexpectedProperty key : Reader α) := idle_failAt _ _

theorem passes_control (t : TaskStep) (key : Scalar) : Passes .mappingEnd (t.control key) := by
  unfold TaskStep.control
  split
  · exact readsNode_scalar.passes_map _
  · exact readsNode_boolean.passes_map _
  · exact readsNode_boolean.passes_map _
  · exact (readsNode_textMap _).passes_map _
  · exact readsNode_scalar.passes_map _
  · exact readsNode_int32.passes_map _
  · exact (idle_failAt _ _).passes

theorem closes_readTask : Closes .mappingEnd readTask := by
  refine readsNode_scalar.passes.closes fun s => ?_
  split
  · exact closes_failAt _ _
  · refine closes_untilEnd .mapping (fun t => enters_key fun key => ?_) _
    split
    · exact (readsNode_textMap _).passes_map _
    · exact passes_control t key

theorem Shorthand.closes_read (s : Shorthand) : Closes .mappingEnd s.read := by
  refine readsNode_scalar.passes.closes fun script => ?_
  refine closes_untilEnd .mapping (fun t => enters_key fun key => ?_) _
  split
  · exact readsNode_scalar.passes_map _
  · exact passes_control t key

/-! ### Steps -/

theorem CheckoutStep.enters_property (c : CheckoutStep) : Enters .mappingEnd c.property := by
  refine enters_key fun key => ?_
  split
  · exact readsNode_nonEmpty.passes_map _
  · exact readsNode_nonEmpty.passes_map _
  · exact readsNode_nonEmpty.passes_map _
  · exact (idle_unexpectedProperty key).passes

theorem closes_readCheckout : Closes .mappingEnd readCheckout := by
  refine readsNode_scalar.passes.closes fun s => ?_
  split
  · exact closes_untilEnd .mapping CheckoutStep.enters_property _
  · exact (closes_expect .mapping).bind fun _ => idle_pure _
  · exact closes_failAt _ _

/-- A simple step is taken up to the end of its mapping. -/
theorem closes_simpleStep {first : Scalar} {rest : Reader SimpleStep} (h : simpleStep? first = some rest) :
    Closes .mappingEnd rest := by
  unfold simpleStep? at h
  split at h
  · next s _ =>
    cases h
    exact s.closes_read.map SimpleStep.task
  · split at h
    · cases h
      exact closes_readTask.map SimpleStep.task
    · cases h
      exact closes_readCheckout.map SimpleStep.checkout
    · cases h

theorem readsNode_readSimpleStep : ReadsNode readSimpleStep := by
  refine readsNode_expect .mapping fun _ => readsNode_scalar.passes.closes fun first => ?_
  split
  · next h => exact closes_simpleStep h
  · split <;> exact closes_failAt _ _

theorem readsNode_readSimpleSteps : ReadsNode readSimpleSteps :=
  readsNode_sequenceOf readsNode_readSimpleStep

theorem readsNode_readOverrides : ReadsNode readOverrides :=
  readsNode_mappingOf (fun _ => (readsNode_nonEmpty.enters .mapping).bind fun _ =>
    readsNode_readSimpleSteps.passes_map _) []

theorem closes_readGroup : Closes .mappingEnd readGroup := by
  refine readsNode_nonEmpty.passes.closes fun name => Closes.map ?_ (Step.group name)
  refine closes_untilEnd .mapping (fun _ => enters_key fun key => ?_) []
  split
  · exact readsNode_readSimpleSteps.passes
  · exact (idle_unexpectedProperty key).passes

theorem StepsReference.enters_property (r : StepsReference) : Enters .mappingEnd r.property := by
  refine enters_key fun key => ?_
  split
  · exact (readsNode_mapping 1).passes_map _
  · exact readsNode_readOverrides.passes_map _
  · exact (idle_unexpectedProperty key).passes

theorem readsNode_readStep : ReadsNode readStep := by
  refine readsNode_expect .mapping fun _ => readsNode_scalar.passes.closes fun first => ?_
  split
  · next h => exact (closes_simpleStep h).map Step.simple
  · split
    · exact closes_readGroup
    · refine readsNode_nonEmpty.passes.closes fun path => ?_
      exact (closes_untilEnd .mapping StepsReference.enters_property _).map Step.template
    · exact closes_failAt _ _

theorem readsNode_readSteps : ReadsNode readSteps := readsNode_sequenceOf readsNode_readStep

/-! ### Variables -/

theorem closes_readNamed : Closes .mappingEnd readNamed := by
  refine readsNode_nonEmpty.passes.closes fun name => ?_
  refine closes_untilEnd .mapping (fun v => enters_key fun key => ?_) _
  split
  · exact readsNode_scalar.passes_map _
  · exact readsNode_boolean.passes_map _
  · exact (idle_unexpectedProperty key).passes

theorem readsNode_readSimpleVariable : ReadsNode readSimpleVariable := by
  refine readsNode_expect .mapping fun _ => readsNode_scalar.passes.closes fun first => ?_
  split
  · exact closes_readNamed
  · exact closes_failAt _ _
  · exact closes_failAt _ _

theorem readsNode_readVariable : ReadsNode readVariable := by
  refine readsNode_expect .mapping fun _ => readsNode_scalar.passes.closes fun first => ?_
  split
  · exact closes_readNamed.map Variable.value
  · refine readsNode_nonEmpty.passes.closes fun path => Closes.map ?_ (Variable.template path)
    refine closes_untilEnd .mapping (fun _ => enters_key fun key => ?_) []
    split
    · exact (readsNode_mapping 1).passes
    · exact (idle_unexpectedProperty key).passes
  · exact closes_failAt _ _

theorem readsNode_readPairs : ReadsNode readPairs := by
  have hpair : Enters .mappingEnd readPair :=
    (readsNode_nonEmpty.enters .mapping).bind fun _ => readsNode_scalar.passes_map _
  exact (readsNode_mappingOf (fun vs => hpair.bind fun v => (idle_pure (v :: vs)).passes) []).map
    List.reverse

theorem readsNode_readSimpleVariables : ReadsNode readSimpleVariables := by
  refine (looks_comes _).readsNode fun pairs => ?_
  split
  · exact readsNode_readPairs
  · exact readsNode_sequenceOf readsNode_readSimpleVariable

theorem readsNode_readVariables : ReadsNode readVariables := by
  refine (looks_comes _).readsNode fun pairs => ?_
  split
  · exact readsNode_readPairs.map (List.map Variable.value)
  · exact readsNode_sequenceOf readsNode_readVariable

/-! ### Targets -/

theorem readsNode_readTexts : ReadsNode readTexts := by
  refine looks_scalarComes.readsNode fun single => ?_
  split
  · exact readsNode_scalar.map _
  · exact readsNode_texts

theorem readsNode_readMatrix : ReadsNode readMatrix := by
  refine readsNode_mappingOf (fun matrix => ?_) []
  refine looks_currentSpan.passes.enters fun span => ?_
  refine (readsNode_nonEmpty.enters .mapping).bind fun leg => ?_
  split
  · exact (idle_failAt _ _).passes.bind fun _ => (readsNode_textMap _).passes_map _
  · exact (readsNode_textMap _).passes_map _

theorem QueueTarget.enters_property (state : QueueTarget × Option String) :
    Enters .mappingEnd (QueueTarget.property state) := by
  refine enters_key fun key => ?_
  dsimp only
  split
  · exact readsNode_nonEmpty.passes_map _
  · exact readsNode_nonEmpty.passes_map _
  · exact readsNode_readTexts.passes_map _
  · exact (idle_refuseAfter _ _ _ _).passes.bind fun _ => readsNode_readMatrix.passes_map _
  · exact (idle_refuseAfter _ _ _ _).passes.bind fun _ => readsNode_nonEmpty.passes_map _
  · exact readsNode_nonEmpty.passes_map _
  · exact (idle_unexpectedProperty key).passes

theorem readsNode_readQueue : ReadsNode readQueue := by
  refine looks_scalarComes.readsNode fun single => ?_
  split
  · exact readsNode_nonEmpty.map _
  · exact (readsNode_mappingOf QueueTarget.enters_property _).map Prod.fst

theorem DeploymentTarget.enters_property (t : DeploymentTarget) : Enters .mappingEnd t.property := by
  refine enters_key fun key => ?_
  split
  · exact readsNode_nonEmpty.passes_map _
  · exact readsNode_nonEmpty.passes_map _
  · exact readsNode_nonEmpty.passes_map _
  · exact readsNode_nonEmpty.passes_map _
  · exact readsNode_readTexts.passes_map _
  · exact readsNode_nonEmpty.passes_map _
  · exact (idle_unexpectedProperty key).passes

theorem readsNode_readDeployment : ReadsNode readDeployment := by
  refine looks_scalarComes.readsNode fun single => ?_
  split
  · exact readsNode_nonEmpty.map _
  · exact readsNode_mappingOf DeploymentTarget.enters_property _

theorem ServerTarget.enters_property (t : ServerTarget) : Enters .mappingEnd t.property := by
  refine enters_key fun key => ?_
  split
  · exact readsNode_nonEmpty.passes_map _
  · exact readsNode_readMatrix.passes_map _
  · exact readsNode_nonEmpty.passes_map _
  · exact readsNode_nonEmpty.passes_map _
  · exact (idle_unexpectedProperty key).passes

theorem readsNode_readServer : ReadsNode readServer := by
  refine looks_scalarComes.readsNode fun single => ?_
  split
  · refine readsNode_boolean.bind fun given => ?_
    split <;> exact idle_pure _
  · exact (readsNode_mappingOf ServerTarget.enters_property _).map some

/-! ### Phases -/

theorem Properties.passes_read? (p : Properties) (key : Scalar) : Passes .mappingEnd (p.read? key) := by
  unfold Properties.read?
  dsimp only
  split
  · exact readsNode_readTexts.passes_map _
  · exact readsNode_nonEmpty.passes_map _
  · exact readsNode_nonEmpty.passes_map _
  · exact readsNode_nonEmpty.passes_map _
  · exact (idle_refuseAfter _ _ _ _).passes.bind fun _ => readsNode_readQueue.passes_map _
  · exact (idle_refuseAfter _ _ _ _).passes.bind fun _ => readsNode_readDeployment.passes_map _
  · exact (idle_refuseAfter _ _ _ _).passes.bind fun _ => readsNode_readServer.passes_map _
  · exact (idle_pure _).passes

theorem readsNode_readSelector : ReadsNode readSelector := by
  refine readsNode_expect .mapping fun _ => (readsNode_exact _).passes.closes fun _ => ?_
  refine readsNode_nonEmpty.passes.closes fun name => Closes.map ?_ (Selector.mk name)
  refine closes_untilEnd .mapping (fun _ => enters_key fun key => ?_) []
  split
  · exact readsNode_readOverrides.passes
  · exact (idle_unexpectedProperty key).passes

theorem PhasesReference.enters_property (r : PhasesReference) : Enters .mappingEnd r.property := by
  refine enters_key fun key => ?_
  split
  · exact (readsNode_mapping 1).passes_map _
  · exact readsNode_readOverrides.passes_map _
  · exact (readsNode_sequenceOf readsNode_readSelector).passes_map _
  · exact (idle_unexpectedProperty key).passes

theorem closes_readPhasesReference : Closes .mappingEnd readPhasesReference :=
  readsNode_nonEmpty.passes.closes fun _ => closes_untilEnd .mapping PhasesReference.enters_property _

theorem Phase.enters_property (p : Phase) : Enters .mappingEnd p.property := by
  refine enters_key fun key => (p.properties.passes_read? key).bind fun read => ?_
  split
  · exact (idle_pure _).passes
  · split
    · exact readsNode_readVariables.passes_map _
    · exact readsNode_readSteps.passes_map _
    · exact (idle_failAt _ _).passes

theorem closes_readPhaseBody : Closes .mappingEnd readPhaseBody :=
  readsNode_nonEmpty.passes.closes fun _ => closes_untilEnd .mapping Phase.enters_property _

theorem readsNode_readSimplePhase : ReadsNode readSimplePhase := by
  refine readsNode_expect .mapping fun _ => readsNode_scalar.passes.closes fun first => ?_
  split
  · exact closes_readPhaseBody
  · split <;> exact closes_failAt _ _

theorem readsNode_readPhase : ReadsNode readPhase := by
  refine readsNode_expect .mapping fun _ => readsNode_scalar.passes.closes fun first => ?_
  split
  · exact closes_readPhaseBody.map PhaseEntry.phase
  · split
    · exact closes_readPhasesReference.map PhaseEntry.template
    · exact closes_failAt _ _

theorem readsNode_readSimplePhases : ReadsNode readSimplePhases :=
  readsNode_sequenceOf readsNode_readSimplePhase

theorem readsNode_readPhases : ReadsNode readPhases := readsNode_sequenceOf readsNode_readPhase

/-! ### Documents -/

theorem Resource.enters_property (r : Resource) : Enters .mappingEnd r.property := by
  refine enters_key fun key => ?_
  split
  · exact readsNode_nonEmpty.passes_map _
  · exact (readsNode_mapping 1).passes_map _
  · exact (idle_unexpectedProperty key).passes

theorem readsNode_readResources : ReadsNode readResources := by
  refine readsNode_sequenceOf (readsNode_expect .mapping fun _ => ?_)
  refine (readsNode_exact _).passes.closes fun _ => readsNode_nonEmpty.passes.closes fun _ => ?_
  exact closes_untilEnd .mapping Resource.enters_property _

theorem readsNode_readTemplateReference : ReadsNode readTemplateReference :=
  readsNode_expect .mapping fun _ => (readsNode_exact _).passes.closes fun _ =>
    closes_readPhasesReference

theorem passes_refuseBeside (present : Option String) (key : Scalar) :
    Passes .mappingEnd (refuseBeside present key) := (idle_refuseAfter _ _ _ _).passes

theorem idle_unexpectedIn {α : Type} (document : String) (key : Scalar) :
    Idle (unexpectedIn document key : Reader α) := idle_failAt _ _

theorem enters_property (p : BuildProcess) : Enters .mappingEnd p.property := by
  refine enters_key fun key => ?_
  split
  · exact readsNode_scalar.passes_map _
  · exact readsNode_readResources.passes_map _
  · exact (passes_refuseBeside _ _).bind fun _ => (passes_refuseBeside _ _).bind fun _ =>
      readsNode_readTemplateReference.passes_map _
  · exact (passes_refuseBeside _ _).bind fun _ => (passes_refuseBeside _ _).bind fun _ =>
      readsNode_readPhases.passes_map _
  · exact (passes_refuseBeside _ _).bind fun _ => readsNode_readVariables.passes_map _
  · exact (passes_refuseBeside _ _).bind fun _ => readsNode_readSteps.passes_map _
  · refine (passes_refuseBeside _ _).bind fun _ => (p.properties.passes_read? key).bind fun read => ?_
    split
    · exact (idle_pure _).passes
    · exact (idle_unexpectedIn _ key).passes

theorem readsNode_read : ReadsNode read := readsNode_mappingOf enters_property _

theorem ProcessTemplate.enters_property (t : ProcessTemplate) : Enters .mappingEnd t.property := by
  refine enters_key fun key => ?_
  split
  · exact readsNode_readResources.passes_map _
  · exact (passes_refuseBeside _ _).bind fun _ => readsNode_readPhases.passes_map _
  · exact (passes_refuseBeside _ _).bind fun _ => readsNode_readSteps.passes_map _
  · exact (idle_unexpectedIn _ key).passes

theorem readsNode_readProcessTemplate : ReadsNode readProcessTemplate :=
  readsNode_mappingOf ProcessTemplate.enters_property _

theorem PhasesTemplate.enters_property (t : PhasesTemplate) : Enters .mappingEnd t.property := by
  refine enters_key fun key => ?_
  split
  · exact (passes_refuseBeside _ _).bind fun _ => readsNode_readSimplePhases.passes_map _
  · exact (passes_refuseBeside _ _).bind fun _ => readsNode_readSteps.passes_map _
  · exact (idle_unexpectedIn _ key).passes

theorem readsNode_readPhasesTemplate : ReadsNode readPhasesTemplate :=
  readsNode_mappingOf PhasesTemplate.enters_property _

theorem readsNode_readStepsTemplate : ReadsNode readStepsTemplate := by
  refine readsNode_mappingOf (fun _ => enters_key fun key => ?_) _
  split
  · exact readsNode_readSimpleSteps.passes_map _
  · exact (idle_unexpectedIn _ key).passes

theorem readsNode_readVariablesTemplate : ReadsNode readVariablesTemplate := by
  refine readsNode_mappingOf (fun _ => enters_key fun key => ?_) _
  split
  · exact readsNode_readSimpleVariables.passes_map _
  · exact (idle_unexpectedIn _ key).passes

/-- **No reader leaves its node**: one that succeeds stands behind it, and whatever the node is made of, no
event behind it is taken or makes a difference. -/
theorem staysIn_of_isNode {node : List Spanned} (h : IsNode node) :
    (∀ depth, StaysIn (Reader.mapping depth) node) ∧ (∀ depth, StaysIn (Reader.sequence depth) node) ∧
    (∀ order, StaysIn (Reader.textMap order) node) ∧ StaysIn Reader.texts node ∧
    StaysIn readStep node ∧ StaysIn readSimpleStep node ∧
    StaysIn readSteps node ∧ StaysIn readSimpleSteps node ∧ StaysIn readOverrides node ∧
    StaysIn readPhase node ∧ StaysIn readSimplePhase node ∧
    StaysIn readPhases node ∧ StaysIn readSimplePhases node ∧
    StaysIn readVariables node ∧ StaysIn readSimpleVariables node ∧
    StaysIn read node ∧ StaysIn readProcessTemplate node ∧ StaysIn readPhasesTemplate node ∧
    StaysIn readStepsTemplate node ∧ StaysIn readVariablesTemplate node :=
  ⟨fun depth => (readsNode_mapping depth).node h, fun depth => (readsNode_sequence depth).node h,
    fun order => (readsNode_textMap order).node h, readsNode_texts.node h,
    readsNode_readStep.node h, readsNode_readSimpleStep.node h,
    readsNode_readSteps.node h, readsNode_readSimpleSteps.node h, readsNode_readOverrides.node h,
    readsNode_readPhase.node h, readsNode_readSimplePhase.node h,
    readsNode_readPhases.node h, readsNode_readSimplePhases.node h,
    readsNode_readVariables.node h, readsNode_readSimpleVariables.node h,
    readsNode_read.node h, readsNode_readProcessTemplate.node h, readsNode_readPhasesTemplate.node h,
    readsNode_readStepsTemplate.node h, readsNode_readVariablesTemplate.node h⟩

/-- The events of a group with one step. -/
def groupNode : List Spanned :=
  [.mappingStart, .scalar "group" true, .scalar "checks" true, .scalar "steps" true, .sequenceStart,
    .mappingStart, .scalar "script" true, .scalar "make" true, .mappingEnd, .sequenceEnd,
    .mappingEnd].map fun event => ⟨event, default⟩

/-- The group is read up to its end, be it followed by nothing, by another step or by a stray end. -/
theorem staysIn_groupNode : IsNode groupNode ∧
    ∃ step, ∀ rest last,
      readStep.run.run ⟨groupNode ++ rest, last⟩ = (.ok step, ⟨rest, last⟩) := by
  have hscalar (text : String) : IsNode [⟨.scalar text true, default⟩] := .scalar text true default
  have hstep : IsNode [⟨.mappingStart, default⟩, ⟨.scalar "script" true, default⟩,
      ⟨.scalar "make" true, default⟩, ⟨.mappingEnd, default⟩] :=
    .collection .mapping (.cons (hscalar "script") (.cons (hscalar "make") .nil))
  have hsteps : IsNode [⟨.sequenceStart, default⟩, ⟨.mappingStart, default⟩,
      ⟨.scalar "script" true, default⟩, ⟨.scalar "make" true, default⟩, ⟨.mappingEnd, default⟩,
      ⟨.sequenceEnd, default⟩] := .collection .sequence (.cons hstep .nil)
  have hnode : IsNode groupNode :=
    .collection .mapping (.cons (hscalar "group") (.cons (hscalar "checks")
      (.cons (hscalar "steps") (.cons hsteps .nil))))
  have hrun : ∃ step c, readStep.run.run ⟨groupNode ++ [], none⟩ = (.ok step, c) := ⟨_, _, rfl⟩
  obtain ⟨step, c, hrun⟩ := hrun
  obtain ⟨-, -, -, -, hstays, -⟩ := staysIn_of_isNode hnode
  exact ⟨hnode, step, (hstays.run_eq_ok hrun).2⟩

end PipelineExpansion.BuildProcess
