import PipelineExpansion.Proofs.BuildProcess.Resolution
import PipelineExpansion.Proofs.Yaml.Refusal

/-!
# What is serialized is read again, but for phases without a name

`serialize` writes a process whose templates have been put in place. Such a process is sound but for
names of phases, so that it is read again when its phases have names. A phase without a name is written
as one with an empty name, and that is refused; it stands there when a template of phases is steps alone.

## Main results

* `readDocument_of_serialize`: what comes of reading what has been serialized.
-/

namespace PipelineExpansion.BuildProcess

open Yaml
open Template (Journal)

/-! ### Phases without a name -/

/-- A phase without a name is written like one with an empty name. -/
theorem Phase.toTree_unnamed {p : Phase} (h : p.name = none) :
    p.toTree = .mapping (("phase", .text "") :: p.entries) := by
  have hempty : p.toTree = ({ p with name := some "" } : Phase).toTree := by
    rw [toTree, toTree, h]
    rfl
  rw [hempty]
  exact Phase.toTree_eq rfl

theorem refuses_phase {p : Phase} (h : p.name = none) :
    Refuses readPhase (PhaseEntry.phase p).toTree.events
      (·.message = "Expected non-empty string value.") := by
  rw [PhaseEntry.toTree, p.toTree_unnamed h]
  refine refuses_expect_bind rfl fun _ => refuses_scalar_bind fun first hfirst _ => ?_
  rw [if_pos (beginsPhase_of_text hfirst)]
  exact ((refuses_nonEmpty.bind _).bind _).append _

/-- All phases have names, or there is a first one that has none, and the entries in front of it are
sound. -/
theorem named_or_unnamed {x : Loader} {entries : List PhaseEntry} (h : ∀ e ∈ entries, e.Spliced x) :
    (∀ e ∈ entries, e.name?.isSome) ∨ ∃ before q after, entries = before ++ .phase q :: after ∧
      (∀ e ∈ before, e.Sound) ∧ q.name = none := by
  by_cases hall : ∀ e ∈ entries, e.name?.isSome
  · exact .inl hall
  · obtain ⟨before, e, after, rfl, hbefore, hname⟩ := exists_first hall
    obtain ⟨hfront, hback⟩ := List.forall_mem_append.mp h
    obtain ⟨q, rfl, -⟩ := hback e List.mem_cons_self
    refine .inr ⟨before, q, after, rfl, fun e he => ?_, Option.not_isSome_iff_eq_none.mp hname⟩
    obtain ⟨p, rfl, hp⟩ := hfront e he
    exact hp.sound_iff.mpr (hbefore _ he)

theorem refuses_phases {before after : List PhaseEntry} {q : Phase} (h : ∀ e ∈ before, e.Sound)
    (hname : q.name = none) :
    Refuses readPhases (phasesTree (before ++ .phase q :: after)).events
      (·.message = "Expected non-empty string value.") :=
  refuses_sequenceOf (fun e he => takes_phase (h e he)) (refuses_phase hname)

/-! ### Processes -/

/-- A process is refused at its first phase that has no name. -/
theorem refuses_read {x : Loader} {p : BuildProcess} (h : p.Spliced x)
    {before after : List PhaseEntry} {q : Phase}
    (hphases : p.phases = some (before ++ .phase q :: after)) (hbefore : ∀ e ∈ before, e.Sound)
    (hname : q.name = none) :
    Refuses read p.toTree.events (·.message = "Expected non-empty string value.") := by
  -- What stands in front of the phases is that of the process without them, which is sound.
  let front : BuildProcess := { p with phases := none }
  have hfront : front.Spliced x := { h with phases := nofun, root := .inl rfl }
  have hread := entries_front (hfront.sound_iff.mpr nofun)
  have hkeys := p.nodup_entries
  have hentries : p.entries =
      (filledEntry "name" p.name ++ treeEntry "resources" resourcesTree p.resources
        ++ treeEntry "template" templateReferenceTree p.template ++ [])
      ++ ("phases", phasesTree (before ++ .phase q :: after)) ::
        (p.properties.toEntries ++ treeEntry "variables" variablesTree p.vars
          ++ treeEntry "steps" stepsTree p.steps) := by
    rw [entries, hphases]
    simp only [treeEntry, List.append_assoc, List.cons_append, List.nil_append, List.append_nil]
  have htree : p.toTree = .ofEntries p.entries := rfl
  rw [hentries] at hkeys
  rw [htree, hentries]
  have hrefused : Refuses readPhases (phasesTree (before ++ .phase q :: after)).events
      (·.message = "Expected non-empty string value.") := refuses_phases hbefore hname
  have hbehind := hrefused.bind fun v =>
    (pure { name := filled p.name, resources := p.resources, phases := some v } :
      Reader BuildProcess)
  refine refuses_mappingOf hkeys hread (refuses_key hbehind fun key hkey => ?_)
  simp only [hkey, front, h.template, Option.map_none]
  rfl

/-- What is refused is not read from any text that gives it back. -/
theorem readDocument_of_refuses {α : Type} {r : Reader α} {t : Tree} {text : String}
    {P : Diagnostic → Prop} (h : Refuses r t.events P) (hback : GivesBack text t) :
    ∃ d, readDocument r text = .error d ∧ P d := by
  obtain ⟨es, hes, hkept⟩ := hback
  obtain ⟨d, c, hrun, hd⟩ := h es [] (es.getLast?.map (·.span)) hkept
  rw [List.append_nil] at hrun
  refine ⟨d, ?_, hd⟩
  rw [readDocument, hes]
  exact congrArg Prod.fst hrun

theorem run_serialize_eq_ok {x : Loader} {directory path : String} {handed : Option Parameters}
    {j j' : Journal} {text : String} :
    (serialize x directory path handed).run.run j = (.ok text, j') ↔
      ∃ name p, (loadResolved x directory path handed).run.run j = (.ok (name, p), j') ∧
        p.toTree.render = text := by
  constructor
  · intro h
    obtain ⟨⟨name, p⟩, j₁, hload, hrender⟩ := run_bind_eq_ok.mp h
    cases hrender
    exact ⟨name, p, hload, rfl⟩
  · rintro ⟨name, p, hload, rfl⟩
    exact run_bind_eq_ok.mpr ⟨(name, p), j', hload, rfl⟩

/-- **What has been serialized is read again when its phases have names**, which is so where no template
of phases is steps alone. Such a template becomes a phase without a name; that is written with an empty
one, and the text is refused for it. -/
theorem readDocument_of_serialize {x : Loader} {directory path : String}
    {handed : Option Parameters} {j j' : Journal} {text : String}
    (h : (serialize x directory path handed).run.run j = (.ok text, j')) :
    ∃ name p, (loadResolved x directory path handed).run.run j = (.ok (name, p), j') ∧
      text = p.toTree.render ∧
      (∀ entries ∈ p.phases, ∀ q, PhaseEntry.phase q ∈ entries → q.name = none →
        x.LoadsBarePhase ∧ q = { steps := q.steps }) ∧
      (¬ x.LoadsBarePhase → p.Named) ∧
      (GivesBack text p.toTree →
        (p.Named → readDocument read text = .ok p.normal) ∧
        (¬ p.Named → ∃ d, readDocument read text = .error d ∧
          d.message = "Expected non-empty string value.")) := by
  obtain ⟨name, p, hload, rfl⟩ := run_serialize_eq_ok.mp h
  have hspliced := yields_loadResolved j _ j' hload
  refine ⟨name, p, hload, rfl, fun entries hentries q hq => hspliced.bare hentries hq,
    hspliced.named, ?_⟩
  intro hback
  constructor
  · intro hnamed
    exact readDocument_of_takes (takes_read (hspliced.sound_iff.mpr hnamed)) hback
  · intro hnamed
    cases hphases : p.phases with
    | none => exact absurd (by rw [Named, hphases]; nofun) hnamed
    | some entries =>
        rcases named_or_unnamed (hspliced.phases entries hphases) with
          hall | ⟨before, q, after, rfl, hbefore, hq⟩
        · exact absurd (by rw [Named, hphases]; exact forall_mem_some hall) hnamed
        · exact readDocument_of_refuses (refuses_read hspliced hphases hbefore hq) hback

/-- Files of which one is a template of phases, and one a template of steps. -/
def phaseFiles : Files := .inMemory
  [⟨none, "build.yml", "phases:\n- template: phases.yml\n"⟩,
   ⟨none, "phases.yml", "phases:\n- phase: main\n  steps:\n  - template: steps.yml\n"⟩,
   ⟨none, "steps.yml", "steps:\n- script: make\n"⟩]

/-- The text that the process in these files is serialized to. -/
def phaseText : String := "phases:\n- phase: main\n  steps:\n  - script: make\n"

theorem readDocument_phaseText :
    ∃ j', (serialize ⟨phaseFiles, {}⟩ "" "build.yml" none).run.run {} = (.ok phaseText, j') ∧
      ∃ name p, (loadResolved ⟨phaseFiles, {}⟩ "" "build.yml" none).run.run {}
          = (.ok (name, p), j') ∧
        p.Named ∧ GivesBack phaseText p.toTree ∧ readDocument read phaseText = .ok p.normal := by
  have hloaded : ((loadResolved ⟨phaseFiles, {}⟩ "" "build.yml" none).run.run {}).1.toOption.any
      (fun loaded => decide (loaded.2.toTree.render = phaseText ∧ loaded.2.Named ∧
        GivesBack phaseText loaded.2.toTree)) = true := by
    decide +kernel
  -- Nothing but these facts matters from here on; the text is costly to read.
  generalize phaseText = text at hloaded ⊢
  generalize hload : (loadResolved ⟨phaseFiles, {}⟩ "" "build.yml" none).run.run {} = run at hloaded
  obtain ⟨_ | ⟨name, p⟩, j'⟩ := run
  · cases hloaded
  · obtain ⟨hrender, hnamed, hback⟩ := of_decide_eq_true hloaded
    have hrun := run_serialize_eq_ok.mpr ⟨name, p, hload, hrender⟩
    obtain ⟨name', p', hload', -, -, -, hread⟩ := readDocument_of_serialize hrun
    cases hload.symm.trans hload'
    exact ⟨j', hrun, name, p, rfl, hnamed, hback, (hread hback).1 hnamed⟩

/-- Files of which one is a template of phases that is steps alone. -/
def bareFiles : Files := .inMemory
  [⟨none, "build.yml", "phases:\n- template: steps.yml\n"⟩,
   ⟨none, "steps.yml", "steps:\n- script: make\n"⟩]

/-- The text that the process in these files is serialized to. -/
def bareText : String := "phases:\n- phase: ''\n  steps:\n  - script: make\n"

/-- The steps of the template become a phase with an empty name, which is refused. -/
theorem bareText_isRefused :
    ¬ ∀ (x : Loader) (directory path : String) (handed : Option Parameters) (j j' : Journal)
      (text : String), (serialize x directory path handed).run.run j = (.ok text, j') →
      (∀ name p, (loadResolved x directory path handed).run.run j = (.ok (name, p), j') →
        GivesBack text p.toTree) →
      ∃ q, readDocument read text = .ok q := by
  have hloaded : ((loadResolved ⟨bareFiles, {}⟩ "" "build.yml" none).run.run {}).1.toOption.any
      (fun loaded => decide (loaded.2.toTree.render = bareText ∧
        GivesBack bareText loaded.2.toTree)) = true := by
    decide +kernel
  have hrefused : (readDocument read bareText).isOk = false := by decide +kernel
  generalize bareText = text at hloaded hrefused
  generalize hload : (loadResolved ⟨bareFiles, {}⟩ "" "build.yml" none).run.run {} = run at hloaded
  obtain ⟨_ | ⟨name, p⟩, j'⟩ := run
  · cases hloaded
  · obtain ⟨hrender, hback⟩ := of_decide_eq_true hloaded
    intro haccepted
    have hrun := run_serialize_eq_ok.mpr ⟨name, p, hload, hrender⟩
    obtain ⟨q, hq⟩ := haccepted _ _ _ _ _ j' text hrun fun name' p' hload' => by
      cases hload.symm.trans hload'
      exact hback
    rw [hq] at hrefused
    cases hrefused

end PipelineExpansion.BuildProcess
