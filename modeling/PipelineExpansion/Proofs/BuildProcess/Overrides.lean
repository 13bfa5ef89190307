import PipelineExpansion.BuildProcess.Load

/-!
# Which override counts

A reference to a template replaces groups of steps in passes, one for each of its selectors and one for
its own overrides. What a pass puts in place of a group holds no groups, so that a later pass finds only
what the earlier ones have left (`replaceGroups_replaceGroups`). Two passes are thus one pass for what the
first has, or else the second; and all passes over a phase are one for the first selector of its name that
has something for a group, or else the reference (`overridePhase_eq`).

## Main results

* `PhasesReference.overridePhase_eq`: the passes over a phase in one.
* `resolve_overrides`: what becomes of the phases and the steps of a template of phases and of one of
  a process.
-/

namespace PipelineExpansion.BuildProcess

open Template (Journaled)

/-! ### One pass -/

/-- Steps with other steps in place of the groups that there are some for. -/
def replaceGroups (replacement? : String → Option (List SimpleStep)) : List Step → List Step
  | [] => []
  | .group name steps :: rest =>
    match replacement? name with
    | some replacement => replacement.map .simple ++ replaceGroups replacement? rest
    | none => .group name steps :: replaceGroups replacement? rest
  | .simple s :: rest => .simple s :: replaceGroups replacement? rest
  | .template r :: rest => .template r :: replaceGroups replacement? rest

theorem overrideSteps_eq (o : Overrides) (steps : List Step) :
    overrideSteps o steps = replaceGroups o.find? steps := by
  rw [overrideSteps]
  induction steps with
  | nil => rfl
  | cons s rest ih =>
      rw [List.flatMap_cons, ih]
      cases s with
      | simple s => rfl
      | template r => rfl
      | group name steps =>
          rw [Step.override, replaceGroups]
          cases o.find? name <;> rfl

/-- Without replacements, groups stay. -/
theorem replaceGroups_none (steps : List Step) : replaceGroups (fun _ => none) steps = steps := by
  induction steps with
  | nil => rfl
  | cons s rest ih => cases s <;> simp only [replaceGroups, ih]

theorem replaceGroups_simple (replacement? : String → Option (List SimpleStep))
    (steps : List SimpleStep) (rest : List Step) :
    replaceGroups replacement? (steps.map .simple ++ rest) =
      steps.map .simple ++ replaceGroups replacement? rest := by
  induction steps with
  | nil => rfl
  | cons s steps ih => exact congrArg (Step.simple s :: ·) ih

/-! ### Passes one after another -/

/-- **Two passes are one.** A group that the first replaces is gone for the second. -/
theorem replaceGroups_replaceGroups (first second : String → Option (List SimpleStep))
    (steps : List Step) :
    replaceGroups second (replaceGroups first steps) =
      replaceGroups (fun name => (first name).or (second name)) steps := by
  induction steps with
  | nil => rfl
  | cons s rest ih =>
      cases s with
      | simple s => exact congrArg (Step.simple s :: ·) ih
      | template r => exact congrArg (Step.template r :: ·) ih
      | group name steps =>
          simp only [replaceGroups]
          cases first name with
          | none =>
              rw [Option.none_or, replaceGroups, ih]
          | some replacement =>
              rw [Option.some_or, replaceGroups_simple, ih]

/-- What a selector has for a group of a phase. -/
def Selector.replacement? (s : Selector) (phase : Option String) (group : String) :
    Option (List SimpleStep) :=
  if phase = some s.name then s.overrides.find? group else none

/-- What a reference has for a group of a phase: what the first of its selectors has that has any, or else
what it has for all phases. -/
def PhasesReference.replacement? (r : PhasesReference) (phase : Option String) (group : String) :
    Option (List SimpleStep) :=
  (r.selectors.findSome? (·.replacement? phase group)).or (r.overrides.find? group)

theorem Phase.select_eq (s : Selector) (p : Phase) :
    p.select s = { p with steps := replaceGroups (s.replacement? p.name) p.steps } := by
  rw [Phase.select]
  split
  · next hname =>
    have hall : s.replacement? p.name = s.overrides.find? := funext fun group => if_pos hname
    rw [Phase.override, overrideSteps_eq, hall]
  · next hname =>
    have hnone : s.replacement? p.name = fun _ => none := funext fun group => if_neg hname
    rw [hnone, replaceGroups_none]

/-- The passes of selectors over a phase are one pass. -/
theorem Phase.foldl_select (selectors : List Selector) (p : Phase) :
    selectors.foldl (fun p s => p.select s) p =
      { p with steps :=
          replaceGroups (fun group => selectors.findSome? (·.replacement? p.name group)) p.steps } := by
  induction selectors generalizing p with
  | nil => exact congrArg (fun steps => { p with steps }) (replaceGroups_none p.steps).symm
  | cons s rest ih =>
      rw [List.foldl_cons, ih, Phase.select_eq]
      dsimp only
      rw [replaceGroups_replaceGroups]
      have hfirst : (fun group => (s.replacement? p.name group).or
            (rest.findSome? (·.replacement? p.name group))) =
          fun group => (s :: rest).findSome? (·.replacement? p.name group) := by
        funext group
        rw [List.findSome?_cons]
        cases s.replacement? p.name group <;> rfl
      rw [hfirst]

/-- A phase with its groups replaced by what a reference has for them. -/
def PhasesReference.replace (r : PhasesReference) (p : Phase) : Phase :=
  { p with steps := replaceGroups (r.replacement? p.name) p.steps }

/-- **All passes over a phase are one**, and the first selector that has something for a group counts. -/
theorem PhasesReference.overridePhase_eq (r : PhasesReference) (p : Phase) :
    r.overridePhase p = r.replace p := by
  rw [overridePhase, Phase.foldl_select, Phase.override, overrideSteps_eq]
  dsimp only
  rw [replaceGroups_replaceGroups]
  rfl

/-! ### Templates -/

/-- The lists of a template that has been resolved: its phases and its steps. -/
abbrev TemplateLists := Option (List PhaseEntry) × Option (List Step)

/-- The lists of a template, with the groups replaced that a reference has something for: by name in
phases, and only by its own overrides in the steps that the template gives itself. -/
def PhasesReference.replaceLists (r : PhasesReference) (lists : TemplateLists) : TemplateLists :=
  (lists.1.map (·.map (·.mapPhase r.replace)), lists.2.map (replaceGroups r.overrides.find?))

/-- The lists of a template of phases, with its own templates in place. -/
def resolvePhasesTemplate (x : Loader) (file : LoadedFile PhasesTemplate) :
    Journaled TemplateLists := do
  let steps ← file.document.steps.mapM (resolveSteps x file.directory)
  let phases ← file.document.phases.mapM (resolveAll x file.directory)
  return (phases.map (·.map .phase), steps)

/-- The lists of a template of a process, with its own templates in place: of its phases, or of its steps
if it has no phases. -/
def resolveProcessTemplate (x : Loader) (file : LoadedFile ProcessTemplate) :
    Journaled TemplateLists :=
  match file.document.phases with
  | some phases => do return (some (← resolvePhases x file.directory phases), file.document.steps)
  | none => do return (none, ← file.document.steps.mapM (resolveSteps x file.directory))

/-- The phases that lists of a template are: steps are one without a name. -/
def phasesOf : TemplateLists → List PhaseEntry
  | (some phases, _) => phases
  | (none, some steps) => [.phase { steps }]
  | (none, none) => []

theorem phasesOf_replaceLists (r : PhasesReference) (phases : Option (List Phase))
    (steps : Option (List Step)) :
    phasesOf (r.replaceLists (phases.map (·.map .phase), steps)) =
      match phases, steps with
      | some phases, _ => phases.map fun p => .phase (r.replace p)
      | none, some steps => [.phase { steps := replaceGroups r.overrides.find? steps }]
      | none, none => [] := by
  cases phases with
  | some phases => exact List.map_map
  | none => cases steps <;> rfl

/-- **Which override counts.** A reference, of phases or of a process, takes the lists of its template as
they are once its own templates are in place, and replaces groups in them. -/
theorem resolve_overrides (x : Loader) (directory : String) (r : PhasesReference) :
    (resolveReference x directory r = do
      let file ← loadFile x directory r.path (some r.parameters) readPhasesTemplate
      let lists ← resolvePhasesTemplate x file
      return phasesOf (r.replaceLists lists)) ∧
    ∀ p : BuildProcess, resolve x directory { p with template := some r } = do
      let file ← loadFile x directory r.path (some r.parameters) readProcessTemplate
      let lists ← resolveProcessTemplate x file
      return { p with
        template := none
        resources := some
          (mergeResources (p.resources.getD []) (file.document.resources.getD []))
        phases := (r.replaceLists lists).1
        steps := (r.replaceLists lists).2 } := by
  have hphase : r.overridePhase = r.replace := funext r.overridePhase_eq
  have hsteps : overrideSteps r.overrides = replaceGroups r.overrides.find? :=
    funext (overrideSteps_eq r.overrides)
  constructor
  · rw [resolveReference, hphase, hsteps]
    refine bind_congr fun file => ?_
    rw [resolvePhasesTemplate]
    simp only [bind_assoc, pure_bind, phasesOf_replaceLists]
    cases file.document.steps <;> cases file.document.phases <;>
      simp only [Option.mapM_none, Option.mapM_some, pure_bind, bind_map_left]
  · intro p
    rw [resolve]
    dsimp only
    rw [hphase, hsteps]
    refine bind_congr fun file => ?_
    rw [resolveProcessTemplate]
    cases file.document.phases with
    | some phases =>
        rw [bind_assoc]
        rfl
    | none =>
        rw [bind_assoc]
        cases file.document.steps with
        | some steps =>
            rw [Option.mapM_some, bind_map_left]
            rfl
        | none => rfl

end PipelineExpansion.BuildProcess
