import PipelineExpansion.Pipeline.Load
import PipelineExpansion.Proofs.Pipeline.Stage

/-!
# What references lead to is sound

A template is read in a context of its own, which knows the same tasks. So what is sound in it is
sound where it is referred to, however deep the references lead (`references_sound`).
-/

namespace PipelineExpansion.Pipeline

open Template (Context Resolve Token)
open Template.Resolve

variable {α : Type} {refs : References} {c : Context} {loaded : Loaded}

/-- A template knows the tasks that are known where it is referred to. -/
theorem yields_readTemplate (refs : References) (c : Context) (reference : String)
    (parameters : Option Token) (definition : String) :
    Yields (readTemplate refs c reference parameters definition) fun loaded =>
      loaded.context.tasks = c.tasks := by
  unfold readTemplate
  refine yields_bind_of_forall fun place => ?_
  refine yields_bind_of_forall fun _ => ?_
  refine yields_bind_of_forall fun result => ?_
  exact yields_pure rfl

/-- What a template has under a key is composed in its own context, and handed over as it is. -/
theorem yields_templateSection {P : Option Task.Catalog → α → Prop} {reference : String}
    {parameters : Option Token} {definition key : String} {absent : α}
    {compose : Loaded → Context → Token → Resolve α} (habsent : P c.tasks absent)
    (h : ∀ loaded c t, Yields (compose loaded c t) (P c.tasks)) :
    Yields (do
      let loaded ← readTemplate refs c reference parameters definition
      withSection loaded key absent (compose loaded)) (P c.tasks) := by
  refine (yields_readTemplate refs c reference parameters definition).bind fun loaded htasks => ?_
  rw [← htasks] at habsent ⊢
  unfold withSection
  split
  · exact yields_pure habsent
  · next t _ => exact h loaded loaded.context t

theorem references_none_sound : References.none.Sound where
  steps _ _ _ := yields_unfinished _
  vars _ _ _ _ _ := yields_unfinished _
  jobs _ _ _ := yields_unfinished _
  stages _ _ _ := yields_unfinished _

/-- **What references lead to is sound**, however deep they may lead. -/
theorem references_sound (n : Nat) : (references n).Sound := by
  induction n with
  | zero => exact references_none_sound
  | succ n ih =>
      have hsteps : (references (n + 1)).SoundSteps := fun c reference parameters =>
        yields_templateSection (P := fun tasks (ss : List Step) => ∀ s ∈ ss, s.Sound tasks)
          (List.forall_mem_nil _) fun loaded c t => by
            refine yields_bind_of_forall fun items => ?_
            exact (yields_stepsOfItems ih.steps c items).inFile _
      have hvars : (references (n + 1)).SoundVars := fun c vars reference parameters h =>
        yields_templateSection (P := fun _ => SoundVariables) h fun loaded c t =>
          (yields_addVariables ih.vars c h t).inFile _
      exact {
        steps := hsteps
        vars := hvars
        jobs := fun c reference parameters =>
          yields_templateSection (P := fun tasks (js : List Job) => ∀ j ∈ js, j.Sound tasks)
            (List.forall_mem_nil _) fun loaded c t => (yields_jobList ih.toSoundParts c t).inFile _
        stages := fun c reference parameters =>
          yields_templateSection (P := fun tasks (ss : List Stage) => ∀ s ∈ ss, s.Sound tasks)
            (List.forall_mem_nil _) fun loaded c t => (yields_stageList ih c t).inFile _ }

end PipelineExpansion.Pipeline
