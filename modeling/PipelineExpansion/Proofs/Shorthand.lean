import PipelineExpansion.Proofs.BuildProcess.ShorthandStep
import PipelineExpansion.Proofs.Pipeline.ShorthandStep
import PipelineExpansion.Proofs.Pipeline.TokenForm

/-!
# Shorthands are tasks in both dialects

Build processes and pipelines have shorthands of their own, and each dialect reads them in its own way: a
build process off its events, with a list of extra keys for each shorthand, and a pipeline off a token,
with any key that is no control property. In both, a step that is written as a shorthand is the same step
when it is written as a task.

## Main results

* `shorthand_isTask`: the two forms of a step, for all shorthands of both dialects.
-/

namespace PipelineExpansion

open Template (Context Journal Token)
open Yaml (Pair ReadsAs Spanned mappingEvents)

/-- **A shorthand is the task that it stands for**, with the same control properties and, as inputs, its
own and its other keys. -/
theorem shorthand_isTask :
    (BuildProcess.shorthands.map fun s => (s.keyword, s.task ++ "@" ++ s.version, s.inline)) =
      [("script", "CmdLine@2", false), ("bash", "Bash@3", true), ("powershell", "PowerShell@2", true)] ∧
    (∀ s ∈ BuildProcess.shorthands, ∀ node node' : List Spanned, s.TwoForms node node' →
      BuildProcess.ReadAlike BuildProcess.SimpleStep.Same BuildProcess.readSimpleStep node node' ∧
      BuildProcess.ReadAlike BuildProcess.Step.Same BuildProcess.readStep node node') ∧
    (∀ keyword, (Pipeline.shorthand? keyword).isSome ↔ keyword ∈ Pipeline.shorthandKeywords) ∧
    ∀ (keyword : String) (s : Pipeline.Shorthand), Pipeline.shorthand? keyword = some s →
      ∀ t t' : Token, s.TwoForms keyword t t' →
      ∀ (refs : Pipeline.References) (c : Context) (j j' : Journal) (steps : List Pipeline.Step),
        (Pipeline.stepsOfItem refs c t).run.run j = some (.ok steps, j') ↔
          (Pipeline.stepsOfItem refs c t').run.run j = some (.ok steps, j') := by
  refine ⟨by decide, fun s hs node node' h => h.readAlike hs,
    fun keyword => Pipeline.isSome_shorthand?_iff, ?_⟩
  intro keyword s hs t t' h refs c j j' steps
  exact h.stepsOfItem_iff hs

/-- Pairs of texts. -/
def textPairs (pairs : List (String × String)) : List Pair :=
  pairs.map fun p => ⟨[⟨.scalar p.1 true, default⟩], [⟨.scalar p.2 true, default⟩]⟩

theorem isPair_textPairs (pairs : List (String × String)) : ∀ e ∈ textPairs pairs, e.IsPair :=
  List.forall_mem_map.mpr fun _ _ => ⟨.scalar _ _ _, .scalar _ _ _⟩

/-- The shorthand for scripts of Bash. -/
def bashShorthand : BuildProcess.Shorthand :=
  ⟨"bash", "Bash", "3", true, ["failOnStderr", "workingDirectory"]⟩

/-- A step with a script of Bash. -/
def bashNode : List Spanned := mappingEvents default default (textPairs
  [("bash", "make"), ("enabled", "false"), ("FailOnStdErr", "true"), ("name", "build")])

/-- The step as a task. -/
def bashTaskNode : List Spanned := mappingEvents default default
  (textPairs [("task", "Bash@3"), ("name", "build")] ++
    ⟨[⟨.scalar "inputs" true, default⟩], mappingEvents default default
      (textPairs [("FailOnStdErr", "true"), ("targetType", "inline"), ("script", "make")])⟩ ::
    textPairs [("enabled", "false")])

theorem twoForms_bashNode : bashShorthand.TwoForms bashNode bashTaskNode := by
  refine @BuildProcess.Shorthand.TwoForms.intro bashShorthand
    default default default default default default
    ⟨[⟨.scalar "bash" true, default⟩], [⟨.scalar "make" true, default⟩]⟩
    ⟨[⟨.scalar "task" true, default⟩], [⟨.scalar "Bash@3" true, default⟩]⟩ _
    (textPairs [("enabled", "false"), ("FailOnStdErr", "true"), ("name", "build")])
    (textPairs [("name", "build")])
    (textPairs [("FailOnStdErr", "true"), ("targetType", "inline"), ("script", "make")])
    (textPairs [("enabled", "false")]) ?_ ?_
  · refine ⟨isPair_textPairs (("bash", "make") :: _), rfl, ?_, by decide⟩
    refine List.forall_mem_cons.mpr ⟨fun h => absurd h (by decide),
      List.forall_mem_cons.mpr ⟨fun _ => ?_,
        List.forall_mem_singleton.mpr fun h => absurd h (by decide)⟩⟩
    exact ⟨"FailOnStdErr", rfl, "failOnStderr", by decide, by decide⟩
  · refine ⟨isPair_textPairs [("task", "Bash@3"), ("name", "build"), ("enabled", "false")],
      isPair_textPairs _, rfl, rfl, by decide, ?_⟩
    exact .swap [] (by decide)

/-- A step with a script of PowerShell. -/
def pwshToken : Token := .ofPairs [("pwsh", .ofText "ls"), ("condition", .ofText "always()"),
  ("failOnStderr", .ofBool true), ("name", .ofText "list")]

/-- The step as a task. -/
def pwshTaskToken : Token := .ofPairs [("task", .ofText "PowerShell@2"), ("name", .ofText "list"),
  ("inputs", .ofPairs [("targetType", .ofText "inline"), ("pwsh", .ofBool true),
    ("script", .ofText "ls"), ("failOnStderr", .ofText "true")]), ("condition", .ofText "always()")]

/-- The shorthand for scripts of PowerShell Core. -/
def pwshShorthand : Pipeline.Shorthand :=
  ⟨"PowerShell@2", "script", [("targetType", "inline"), ("pwsh", "true")]⟩

theorem twoForms_pwshToken : pwshShorthand.TwoForms "pwsh" pwshToken pwshTaskToken := by
  refine @Pipeline.Shorthand.TwoForms.intro pwshShorthand "pwsh" pwshToken pwshTaskToken
    ⟨.unknown, "pwsh"⟩ (.ofText "ls")
    [(⟨.unknown, "condition"⟩, .ofText "always()"), (⟨.unknown, "failOnStderr"⟩, .ofBool true),
      (⟨.unknown, "name"⟩, .ofText "list")]
    (⟨.unknown, "task"⟩, .ofText "PowerShell@2") (⟨.unknown, "inputs"⟩, _)
    [(⟨.unknown, "name"⟩, .ofText "list")] _ [(⟨.unknown, "condition"⟩, .ofText "always()")]
    rfl rfl rfl ⟨by decide, by decide⟩ ⟨rfl, rfl, rfl, rfl, by decide, ?_⟩
  exact .swap [] (by decide)

/-- The script of Bash and that of PowerShell are read in both forms, and as the same. -/
theorem shorthand_isTask_bash_pwsh :
    (bashShorthand ∈ BuildProcess.shorthands ∧ bashShorthand.TwoForms bashNode bashTaskNode ∧
      ∃ a b, ReadsAs BuildProcess.readStep bashNode a ∧ ReadsAs BuildProcess.readStep bashTaskNode b ∧
        a.Same b) ∧
    Pipeline.shorthand? "pwsh" = some pwshShorthand ∧
      pwshShorthand.TwoForms "pwsh" pwshToken pwshTaskToken ∧
      ∃ steps, (Pipeline.stepsOfItem .none Pipeline.noFiles pwshToken).run.run {}
          = some (.ok steps, {}) ∧
        (Pipeline.stepsOfItem .none Pipeline.noFiles pwshTaskToken).run.run {}
          = some (.ok steps, {}) := by
  obtain ⟨-, hprocess, -, hpipeline⟩ := shorthand_isTask
  have hbash : bashShorthand ∈ BuildProcess.shorthands :=
    List.mem_cons_of_mem _ List.mem_cons_self
  have hread : ∃ step c, BuildProcess.readStep.run.run ⟨bashNode ++ [], none⟩ = (.ok step, c) :=
    ⟨_, _, rfl⟩
  obtain ⟨step, c, hrun⟩ := hread
  have hnode : Yaml.IsNode bashNode := Yaml.isNode_mappingEvents (isPair_textPairs _)
  have hreads : ReadsAs BuildProcess.readStep bashNode step :=
    ((BuildProcess.readsNode_readStep.node hnode).run_eq_ok hrun).2
  obtain ⟨-, hforth, -⟩ := hprocess _ hbash _ _ twoForms_bashNode
  obtain ⟨task, htask, hsame⟩ := hforth step hreads
  have hsteps : ∃ steps, (Pipeline.stepsOfItem .none Pipeline.noFiles pwshToken).run.run {}
      = some (.ok steps, {}) := ⟨_, rfl⟩
  obtain ⟨steps, hsteps⟩ := hsteps
  exact ⟨⟨hbash, twoForms_bashNode, step, task, hreads, htask, hsame⟩, rfl, twoForms_pwshToken,
    steps, hsteps, (hpipeline _ _ rfl _ _ twoForms_pwshToken _ _ _ _ _).mp hsteps⟩

end PipelineExpansion
