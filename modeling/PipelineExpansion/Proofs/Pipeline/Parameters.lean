import PipelineExpansion.Proofs.Pipeline.TokenForm

/-!
# Bringing a value to its type twice

A value that has been brought to the type of a parameter is of that type already: scalars are left
as they are, and what is composed of tokens is composed of the tokens it is handed on as, for which
no file is needed. So a value that is handed down through typed parameters of many templates changes
on its first way only.

## Main results

* `yields_convertTo`: what a conversion returns is settled in its type.
* `convert_of_convert`: a second conversion changes nothing, and neither does any further one.
-/

namespace PipelineExpansion.Pipeline

open Template (Context Resolve Token)
open Template.Resolve

variable {tasks : Option Task.Catalog} {c : Context} {t value : Token}

/-- A value that a conversion of a token came to. Put in the place of the token, it stays as it is
wherever the tasks are the same. -/
def Settled (tasks : Option Task.Catalog) (t : Token) (type : ParameterType) (value : Token) :
    Prop :=
  ∀ (refs : References) (c : Context), c.tasks = tasks →
    ∃ again, convertTo refs c (value.locatedAt t) type = pure again ∧
      again.locatedAt (value.locatedAt t) = value.locatedAt t

/-- A value that comes back in the form it is in. -/
theorem settled_of_form {type : ParameterType}
    (h : ∀ (refs : References) (c : Context), c.tasks = tasks →
      convertTo refs c (value.locatedAt t) type = pure value) : Settled tasks t type value :=
  fun refs c hc => ⟨value, h refs c hc, value.locatedAt_locatedAt t⟩

/-- A value that is left as it is. -/
theorem settled_of_self {type : ParameterType}
    (h : ∀ (refs : References) (c : Context),
      convertTo refs c (value.locatedAt t) type = pure (value.locatedAt t)) :
    Settled tasks t type value :=
  fun refs c _ => ⟨value.locatedAt t, h refs c, Token.locatedAt_self _⟩

/-! ### Scalars -/

theorem convertScalar_of_kind {zero : Token} (kind : String) (hnull : t.isNull = false)
    (hkind : t.kindName = zero.kindName) : convertScalar t zero kind = .ok t := by
  rw [convertScalar, hnull, if_neg Bool.false_ne_true, if_pos hkind]

/-- A scalar of the right kind, or the zero of the kind, is of the kind. -/
theorem ensures_convertScalar (t : Token) {zero : Token} (kind : String)
    (hzero : zero.isNull = false) :
    Ensures (convertScalar t zero kind) fun value =>
      convertScalar (value.locatedAt t) zero kind = .ok (value.locatedAt t) := by
  unfold convertScalar
  split
  · refine ensures_ok ?_
    rw [← convertScalar]
    exact convertScalar_of_kind kind (by simpa using hzero) (by simp)
  · next hnull =>
    split
    · next hkind =>
      refine ensures_ok ?_
      rw [Token.locatedAt_self, ← convertScalar]
      exact convertScalar_of_kind kind (by simpa using hnull) hkind
    · exact ensures_error _ _

theorem yields_convertTo_scalar {type : ParameterType} {zero : Token} {kind : String}
    (hzero : zero.isNull = false)
    (htype : ∀ refs c t, convertTo refs c t type = Resolve.ofExcept (convertScalar t zero kind))
    (refs : References) (c : Context) (t : Token) :
    Yields (convertTo refs c t type) (Settled c.tasks t type) := by
  rw [htype]
  intro j value j' hrun
  have hscalar := yields_ofExcept (ensures_convertScalar t kind hzero) j value j' hrun
  exact settled_of_self fun refs c => (htype refs c _).trans (congrArg Resolve.ofExcept hscalar)

/-! ### What is composed -/

/-- Where null stands for nothing, a value is composed of anything else. What is composed comes back
in its form, or is nothing. -/
theorem yields_convertTo_composed {type : ParameterType} {refs : References}
    {compose : References → Context → Token → Resolve Token}
    (htype : ∀ refs c t,
      convertTo refs c t type = if t.isNull then pure .ofNull else compose refs c t)
    (h : Yields (compose refs c t) fun value => value = .ofNull ∨ value.isNull = false ∧
      ∀ (refs : References) (c' : Context), c'.tasks = c.tasks →
        compose refs c' (value.locatedAt t) = pure value) :
    Yields (convertTo refs c t type) (Settled c.tasks t type) := by
  have hnull : Settled c.tasks t type .ofNull := settled_of_form fun refs c _ =>
    (htype refs c _).trans (if_pos (Token.isNull_locatedAt _ _))
  rw [htype]
  split
  · exact yields_pure hnull
  · intro j value j' hrun
    rcases h j value j' hrun with rfl | ⟨hvalue, hback⟩
    · exact hnull
    · refine settled_of_form fun refs c' htasks => ?_
      rw [htype, Token.isNull_locatedAt, hvalue, if_neg Bool.false_ne_true]
      exact hback refs c' htasks

theorem yields_convertTo_step (n : Nat) (c : Context) (t : Token) :
    Yields (convertTo (references n) c t .step) (Settled c.tasks t .step) := by
  refine yields_convertTo_composed (fun _ _ _ => rfl) ?_
  refine (yields_stepsOfItem (references_sound n).steps c t).bind fun steps hsteps => ?_
  split
  · next first rest =>
    refine yields_pure (.inr ⟨rfl, fun refs c' htasks => ?_⟩)
    exact bind_of_eq_pure (stepsOfItem_toToken (hsteps first List.mem_cons_self) htasks
      (first.toToken.entries?_locatedAt t)) _
  · exact yields_pure (.inl rfl)

theorem yields_convertTo_stepList (n : Nat) (c : Context) (t : Token) :
    Yields (convertTo (references n) c t .stepList) (Settled c.tasks t .stepList) := by
  refine (yields_stepList (references_sound n).steps c t).bind fun steps hsteps => ?_
  refine yields_pure (settled_of_form fun refs c' htasks => ?_)
  exact bind_of_eq_pure (stepList_stepsToken hsteps htasks (Token.items?_locatedAt _ _)) _

theorem yields_convertTo_job (n : Nat) (c : Context) (t : Token) :
    Yields (convertTo (references n) c t .job) (Settled c.tasks t .job) := by
  refine yields_convertTo_composed (fun _ _ _ => rfl) ?_
  refine (yields_job (references_sound n).toSoundParts c t false).bind fun job hjob => ?_
  refine yields_pure (.inr ⟨rfl, fun refs c' htasks => ?_⟩)
  have hback : Job.ofToken? refs c' (job.toToken.locatedAt t) false = pure job.kept :=
    Job.ofToken?_toToken hjob htasks (Token.entries?_locatedAt _ _)
  refine (bind_of_eq_pure hback _).trans ?_
  rw [job.toToken_kept]

theorem yields_convertTo_jobList (n : Nat) (c : Context) (t : Token) :
    Yields (convertTo (references n) c t .jobList) (Settled c.tasks t .jobList) := by
  refine (yields_jobList (references_sound n).toSoundParts c t).bind fun jobs hjobs => ?_
  refine yields_pure (settled_of_form fun refs c' htasks => ?_)
  refine (bind_of_eq_pure (jobList_jobsToken hjobs htasks (Token.items?_locatedAt _ _)) _).trans ?_
  rw [jobsToken_kept]

theorem yields_requireDeployment (t : Token) (j : Job) :
    Yields (Resolve.ofExcept (requireDeployment t j)) fun _ => j.deployment = true := by
  unfold requireDeployment
  split
  · next h => exact yields_pure h
  · exact yields_throw _ _

/-- What is kept of a deployment is a deployment. -/
theorem requireDeployment_kept (t : Token) {j : Job} (h : j.deployment = true) :
    Resolve.ofExcept (requireDeployment t j.kept) = pure () :=
  congrArg Resolve.ofExcept (if_pos h)

theorem yields_convertTo_deployment (n : Nat) (c : Context) (t : Token) :
    Yields (convertTo (references n) c t .deployment) (Settled c.tasks t .deployment) := by
  refine yields_convertTo_composed (fun _ _ _ => rfl) ?_
  refine (yields_job (references_sound n).toSoundParts c t false).bind fun job hjob => ?_
  refine (yields_requireDeployment t job).bind fun _ hdeployment => ?_
  refine yields_pure (.inr ⟨rfl, fun refs c' htasks => ?_⟩)
  have hback : Job.ofToken? refs c' (job.toToken.locatedAt t) false = pure job.kept :=
    Job.ofToken?_toToken hjob htasks (Token.entries?_locatedAt _ _)
  refine (bind_of_eq_pure hback _).trans ?_
  refine (bind_of_eq_pure (requireDeployment_kept _ hdeployment) _).trans ?_
  rw [job.toToken_kept]

theorem yields_convertTo_deploymentList (n : Nat) (c : Context) (t : Token) :
    Yields (convertTo (references n) c t .deploymentList)
      (Settled c.tasks t .deploymentList) := by
  refine (yields_jobList (references_sound n).toSoundParts c t).bind fun jobs hjobs => ?_
  refine (yields_forM (yields_requireDeployment t)).bind fun _ hdeployments => ?_
  refine yields_pure (settled_of_form fun refs c' htasks => ?_)
  refine (bind_of_eq_pure (jobList_jobsToken hjobs htasks (Token.items?_locatedAt _ _)) _).trans ?_
  refine (bind_of_eq_pure (forM_eq_pure ?_) _).trans ?_
  · rw [List.forall_mem_map]
    exact fun job hjob => requireDeployment_kept _ (hdeployments job hjob)
  · rw [jobsToken_kept]

theorem yields_convertTo_stage (n : Nat) (c : Context) (t : Token) :
    Yields (convertTo (references n) c t .stage) (Settled c.tasks t .stage) := by
  refine yields_convertTo_composed (fun _ _ _ => rfl) ?_
  refine (yields_stage (references_sound n).toSoundParts c t false).bind fun stage hstage => ?_
  refine yields_pure (.inr ⟨rfl, fun refs c' htasks => ?_⟩)
  refine (bind_of_eq_pure (Stage.ofToken?_toToken hstage htasks
    (Token.entries?_locatedAt _ _)) _).trans ?_
  rw [stage.toToken_kept]

theorem yields_convertTo_stageList (n : Nat) (c : Context) (t : Token) :
    Yields (convertTo (references n) c t .stageList) (Settled c.tasks t .stageList) := by
  refine (yields_stageList (references_sound n) c t).bind fun stages hstages => ?_
  refine yields_pure (settled_of_form fun refs c' htasks => ?_)
  refine (bind_of_eq_pure (stageList_stagesToken hstages htasks
    (Token.items?_locatedAt _ _)) _).trans ?_
  rw [stagesToken_kept]

/-- **What a conversion returns is settled in its type.** -/
theorem yields_convertTo (n : Nat) (c : Context) (t : Token) (type : ParameterType) :
    Yields (convertTo (references n) c t type) (Settled c.tasks t type) := by
  cases type with
  | object => exact yields_pure (settled_of_self fun _ _ => rfl)
  | boolean => exact yields_convertTo_scalar rfl (fun _ _ _ => rfl) _ c t
  | number => exact yields_convertTo_scalar rfl (fun _ _ _ => rfl) _ c t
  | string => exact yields_convertTo_scalar rfl (fun _ _ _ => rfl) _ c t
  | step => exact yields_convertTo_step n c t
  | stepList => exact yields_convertTo_stepList n c t
  | job => exact yields_convertTo_job n c t
  | jobList => exact yields_convertTo_jobList n c t
  | deployment => exact yields_convertTo_deployment n c t
  | deploymentList => exact yields_convertTo_deploymentList n c t
  | stage => exact yields_convertTo_stage n c t
  | stageList => exact yields_convertTo_stageList n c t

/-! ### Handing values down -/

/-- A value that a conversion to the type of a name leaves as it is wherever the tasks are these. -/
def Converted (tasks : Option Task.Catalog) (type : String) (value : Token) : Prop :=
  ∀ (refs : References) (c : Context), c.tasks = tasks → convert refs c value type = pure value

/-- A conversion gives what it made a place; an object has its own. -/
theorem convert_eq {type : String} {known : ParameterType}
    (h : ParameterType.ofName? type = some known) (refs : References) (c : Context) (t : Token) :
    convert refs c t type = do return (← convertTo refs c t known).locatedAt t := by
  rw [convert, h]
  cases known with
  | object => exact congrArg pure t.locatedAt_self.symm
  | _ => rfl

theorem yields_convert (n : Nat) (c : Context) (t : Token) (type : String) :
    Yields (convert (references n) c t type) (Converted c.tasks type) := by
  cases htype : ParameterType.ofName? type with
  | none =>
      rw [convert, htype]
      exact yields_throw _ _
  | some known =>
      rw [convert_eq htype]
      refine (yields_convertTo n c t known).bind fun value hvalue => ?_
      refine yields_pure fun refs c' htasks => ?_
      obtain ⟨again, hagain, hplace⟩ := hvalue refs c' htasks
      rw [convert_eq htype, hagain, pure_bind, hplace]

/-- **A second conversion changes nothing**, and neither does any further one: a value that is
handed down through typed parameters stays as it is after the first. No conversion but the first
needs a file. -/
theorem convert_of_convert {n : Nat} {c : Context} {t value : Token} {type : String}
    {j j' : Template.Journal}
    (h : (convert (references n) c t type).run.run j = some (.ok value, j')) :
    (∀ (refs : References) (c' : Context), c'.tasks = c.tasks →
      convert refs c' value type = pure value) ∧
    ∀ way : List (References × Context), (∀ stop ∈ way, stop.2.tasks = c.tasks) →
      way.foldlM (fun value stop => convert stop.1 stop.2 value type) value = pure value := by
  have hconverted := yields_convert n c t type j value j' h
  refine ⟨hconverted, fun way hway => ?_⟩
  induction way with
  | nil => rfl
  | cons stop rest ih =>
      obtain ⟨hstop, hrest⟩ := List.forall_mem_cons.mp hway
      rw [List.foldlM_cons, hconverted stop.1 stop.2 hstop, pure_bind]
      exact ih hrest

theorem convert_templateAndShorthand :
    ∃ value j, (convert (references 1) oneTemplate templateAndShorthand "stepList").run.run {}
        = some (.ok value, j) ∧ value.items?.map List.length = some 2 ∧
      convert .none noFiles value "stepList" = pure value := by
  have hreads :
      ((convert (references 1) oneTemplate templateAndShorthand "stepList").run.run {}).any
        (fun r => r.1.toOption.any fun value => value.items?.map List.length == some 2) = true := by
    decide +kernel
  have htasks : noFiles.tasks = oneTemplate.tasks := rfl
  obtain ⟨⟨outcome, j⟩, hrun, hlength⟩ := (Option.any_eq_true _ _).mp hreads
  cases outcome with
  | error d => cases hlength
  | ok value =>
      exact ⟨value, j, hrun, by simpa [Except.toOption] using hlength,
        (convert_of_convert hrun).1 .none noFiles htasks⟩

end PipelineExpansion.Pipeline
