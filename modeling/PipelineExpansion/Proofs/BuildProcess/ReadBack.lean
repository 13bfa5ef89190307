import Mathlib.Data.List.Induction
import PipelineExpansion.Proofs.BuildProcess.Document

/-!
# What is read back of phases and of variables

Steps and variables are all that a phase may lose by being written and read: an entry of a list of
phases comes back with everything else that it says (`PhaseEntry.Agrees`).

Variables come back as they are when they are written as a sequence. When all of them are plain
pairs they are written as a mapping, in which a name has one place: of the variables of one name,
one comes back, in the place of the first with the value of the last. Nothing keeps a sequence from
naming a variable twice, nor a mapping.

## Main results

* `readPhaseEntry_written`: what is read back of an entry of a list of phases.
* `readVariableList_written`: what is read back of variables, and which come back as they are.
-/

namespace PipelineExpansion.BuildProcess

open Yaml

/-! ### Entries of lists of phases -/

/-- Reads an entry of a list of phases where templates may be, or may not. -/
def readPhaseEntry (templates : Bool) : Reader PhaseEntry :=
  if templates then readPhase else do return .phase (← readSimplePhase)

/-- Entries say the same but for their variables and for what their steps are. -/
def PhaseEntry.Agrees : PhaseEntry → PhaseEntry → Prop
  | .phase p, .phase q =>
    p.name = q.name ∧ p.properties = q.properties ∧ p.steps.length = q.steps.length
  | .template r, .template s =>
    r.path = s.path ∧ r.parameters = s.parameters ∧ r.overrides.names = s.overrides.names ∧
      r.selectors.map (·.name) = s.selectors.map (·.name) ∧
      r.selectors.map (·.overrides.names) = s.selectors.map (·.overrides.names)
  | _, _ => False

@[simp] theorem names_normalOverrides (o : Overrides) : (normalOverrides o).names = o.names := by
  rw [normalOverrides, Dictionary.names, List.map_map]
  rfl

theorem PhaseEntry.agrees_normal (e : PhaseEntry) : e.normal.Agrees e := by
  cases e with
  | phase p => exact ⟨rfl, rfl, List.length_map _⟩
  | template r =>
      refine ⟨rfl, rfl, names_normalOverrides _, ?_, ?_⟩ <;>
        simp [PhasesReference.normal, Selector.normal, Function.comp_def]

theorem yields_readPhaseEntry (templates : Bool) :
    Yields (readPhaseEntry templates) PhaseEntry.Sound := by
  cases templates with
  | true => exact yields_readPhase
  | false => exact yields_readSimplePhase.bind fun p hp => yields_pure hp

/-- Where templates may not be, what is read is a phase. -/
theorem yields_readPhaseEntry_phase :
    Yields (readPhaseEntry false) fun e => ∃ p, e = .phase p :=
  yields_bind_of_forall fun p => yields_pure ⟨p, rfl⟩

/-- **What is read back of an entry of a list of phases.** An entry that has been read from any text
is written as a tree; a text that gives this tree back is read as an entry that says the same. -/
theorem readPhaseEntry_written {templates : Bool} {x written : String} {e : PhaseEntry}
    (hread : readDocument (readPhaseEntry templates) x = .ok e)
    (hback : GivesBack written e.toTree) :
    ∃ e', readDocument (readPhaseEntry templates) written = .ok e' ∧ e'.Agrees e := by
  have hsound : e.Sound := of_readDocument (yields_readPhaseEntry templates) hread
  have htakes : Takes (readPhaseEntry templates) e.toTree.events e.normal := by
    cases templates with
    | true => exact takes_phase hsound
    | false =>
        obtain ⟨p, rfl⟩ := of_readDocument yields_readPhaseEntry_phase hread
        exact (takes_simplePhase hsound).map PhaseEntry.phase
  exact ⟨e.normal, readDocument_of_takes htakes hback, e.agrees_normal⟩

/-- The entry that a text is read as. -/
def phaseEntryOf (templates : Bool) (text : String) : PhaseEntry :=
  (readDocument (readPhaseEntry templates) text).toOption.getD (.phase {})

theorem readDocument_phaseEntryOf {templates : Bool} {text : String}
    (h : (readDocument (readPhaseEntry templates) text).isOk = true) :
    readDocument (readPhaseEntry templates) text = .ok (phaseEntryOf templates text) :=
  readDocument_getD _ h

/-- A phase that runs on machines with two demands. -/
def demandingText : String :=
  "phase: test\ndependsOn: [build, lint]\nqueue: {demands: [npm, git], parallel: 2}\n"
    ++ "steps: [bash: ls]\n"

/-- The phase that it is read as. -/
def demandingPhase : PhaseEntry := phaseEntryOf false demandingText

/-- A reference to a template of phases, with steps for one of them. -/
def referenceText : String :=
  "template: p.yml\nparameters: {a: [b]}\nsteps: {post: []}\nphases:\n- name: build\n"
    ++ "  steps: {pre: []}\n"

/-- The reference that it is read as. -/
def buildReference : PhaseEntry := phaseEntryOf true referenceText

theorem readPhaseEntry_written_phaseAndReference :
    (readDocument (readPhaseEntry false) demandingText = .ok demandingPhase ∧
      GivesBack demandingPhase.toTree.render demandingPhase.toTree ∧
      ∃ e', readDocument (readPhaseEntry false) demandingPhase.toTree.render = .ok e' ∧
        e'.Agrees demandingPhase) ∧
    readDocument (readPhaseEntry true) referenceText = .ok buildReference ∧
      GivesBack buildReference.toTree.render buildReference.toTree ∧
      ∃ e', readDocument (readPhaseEntry true) buildReference.toTree.render = .ok e' ∧
        e'.Agrees buildReference := by
  have hphase : readDocument (readPhaseEntry false) demandingText = .ok demandingPhase :=
    readDocument_phaseEntryOf (by decide +kernel)
  have hphaseBack : GivesBack demandingPhase.toTree.render demandingPhase.toTree := by
    decide +kernel
  have hreference : readDocument (readPhaseEntry true) referenceText = .ok buildReference :=
    readDocument_phaseEntryOf (by decide +kernel)
  have hreferenceBack : GivesBack buildReference.toTree.render buildReference.toTree := by
    decide +kernel
  exact ⟨⟨hphase, hphaseBack, readPhaseEntry_written hphase hphaseBack⟩, hreference,
    hreferenceBack, readPhaseEntry_written hreference hreferenceBack⟩

/-! ### Variables -/

/-- Reads variables, among which templates may be, or may not. -/
def readVariableList (templates : Bool) : Reader (List Variable) :=
  if templates then readVariables else do return (← readSimpleVariables).map .value

/-- Variables as pairs of a name and a value, as far as they have a name. -/
def pairsOf (vars : List Variable) : List (String × String) := vars.flatMap Variable.pairs

theorem map_putValue (ps : List (String × String)) (name value : String) :
    (putValue ps name value).map (·.1)
      = if name ∈ ps.map (·.1) then ps.map (·.1) else ps.map (·.1) ++ [name] := by
  induction ps with
  | nil => rfl
  | cons p rest ih =>
      rw [putValue]
      split
      · next h => simp [h]
      · next h =>
        rw [List.map_cons, ih, List.map_cons]
        by_cases hmem : name ∈ rest.map (·.1)
        · rw [if_pos hmem, if_pos (List.mem_cons_of_mem _ hmem)]
        · rw [if_neg hmem, if_neg (List.not_mem_cons_of_ne_of_not_mem (Ne.symm h) hmem),
            List.cons_append]

theorem lookup_cons_ite (name value n : String) (ps : List (String × String)) :
    ((name, value) :: ps).lookup n = if n = name then some value else ps.lookup n := by
  rw [List.lookup_cons]
  by_cases h : n = name
  · rw [if_pos h, beq_iff_eq.mpr h]
  · rw [if_neg h, beq_eq_false_iff_ne.mpr h]

theorem lookup_putValue (ps : List (String × String)) (name value n : String) :
    (putValue ps name value).lookup n = if n = name then some value else ps.lookup n := by
  induction ps with
  | nil => exact lookup_cons_ite name value n []
  | cons p rest ih =>
      obtain ⟨m, v⟩ := p
      rw [putValue]
      split
      · next h =>
        rw [lookup_cons_ite, lookup_cons_ite, h]
        split <;> rfl
      · next h =>
        rw [lookup_cons_ite, lookup_cons_ite, ih]
        by_cases hm : n = m
        · rw [if_pos hm, if_neg (hm ▸ h)]
          exact (if_pos hm).symm
        · rw [if_neg hm, if_neg hm]

/-- Last values are in the first places. -/
theorem map_lastValues (ps : List (String × String)) :
    (lastValues ps).map (·.1) = (ps.map (·.1)).eraseDups := by
  induction ps using List.reverseRecOn with
  | nil => rfl
  | append_singleton rest p ih =>
      rw [lastValues, List.foldl_concat, ← lastValues, map_putValue, ih, List.map_append,
        List.eraseDups_append]
      by_cases hmem : p.1 ∈ rest.map (·.1)
      · simp [hmem, List.removeAll]
      · simp [hmem, List.removeAll, List.eraseDups_cons]

/-- Last values are last. -/
theorem lookup_lastValues (ps : List (String × String)) (name : String) :
    (lastValues ps).lookup name = ps.reverse.lookup name := by
  induction ps using List.reverseRecOn with
  | nil => rfl
  | append_singleton rest p ih =>
      rw [lastValues, List.foldl_concat, ← lastValues, lookup_putValue, ih, List.reverse_append,
        List.reverse_singleton, List.singleton_append, lookup_cons_ite]

/-- Pairs are their own last values when no name is there twice. -/
theorem lastValues_eq_self_iff {ps : List (String × String)} :
    lastValues ps = ps ↔ (ps.map (·.1)).Nodup := by
  refine ⟨fun h => h ▸ nodup_lastValues ps, fun h => ?_⟩
  have hinjective : Function.Injective fun p : String × String => (p.1, Tree.text p.2) := by
    rintro ⟨name, value⟩ ⟨name', value'⟩ heq
    cases heq
    rfl
  exact List.map_injective_iff.mpr hinjective (lastValues_of_nodup h)

/-- Plain pairs are all that there is to variables that are written as a mapping. -/
theorem map_ofPair_pairsOf {vars : List Variable} (h : vars.all Variable.isPair = true) :
    (pairsOf vars).map (fun p => Variable.value (.ofPair p)) = vars := by
  induction vars with
  | nil => rfl
  | cons v rest ih =>
      rw [List.all_cons, Bool.and_eq_true] at h
      rw [pairsOf, List.flatMap_cons, List.map_append, ← pairsOf, ih h.2]
      rcases v with ⟨name, _ | value, _ | _⟩ | ⟨path, parameters⟩
      · cases h.1
      · cases h.1
      · rfl
      · cases h.1
      · cases h.1

/-- Variables come back as they are unless they are plain pairs and name one variable twice. -/
theorem normalVariables_eq_self_iff {vars : List Variable} :
    normalVariables vars = vars ↔
      (vars.all Variable.isPair = true → ((pairsOf vars).map (·.1)).Nodup) := by
  rw [normalVariables]
  split
  · next h =>
    have hinjective : Function.Injective fun p : String × String => Variable.value (.ofPair p) := by
      rintro ⟨name, value⟩ ⟨name', value'⟩ heq
      cases heq
      rfl
    calc (lastValues (pairsOf vars)).map (fun p => Variable.value (.ofPair p)) = vars
        ↔ (lastValues (pairsOf vars)).map (fun p => Variable.value (.ofPair p))
            = (pairsOf vars).map fun p => .value (.ofPair p) := by rw [map_ofPair_pairsOf h]
      _ ↔ lastValues (pairsOf vars) = pairsOf vars := (List.map_injective_iff.mpr hinjective).eq_iff
      _ ↔ ((pairsOf vars).map (·.1)).Nodup := lastValues_eq_self_iff
      _ ↔ _ := ⟨fun hnodup _ => hnodup, fun hnodup => hnodup h⟩
  · next h => exact iff_of_true rfl fun hpairs => absurd hpairs h

theorem pairsOf_normalVariables {vars : List Variable} (h : vars.all Variable.isPair = true) :
    pairsOf (normalVariables vars) = lastValues (pairsOf vars) := by
  rw [normalVariables, if_pos h]
  exact flatMap_pairs_ofPair _

theorem all_isPair_normalVariables (vars : List Variable) :
    (normalVariables vars).all Variable.isPair = vars.all Variable.isPair := by
  rw [normalVariables]
  split
  · next h =>
    rw [h, List.all_map, List.all_eq_true]
    exact fun _ _ => rfl
  · rfl

theorem readDocument_variableList {templates : Bool} {x written : String} {vars : List Variable}
    (hread : readDocument (readVariableList templates) x = .ok vars)
    (hback : GivesBack written (variablesTree vars)) :
    readDocument (readVariableList templates) written = .ok (normalVariables vars) := by
  cases templates with
  | true =>
      have hsound := of_readDocument yields_readVariables hread
      exact readDocument_of_takes (takes_variables hsound) hback
  | false =>
      have hyields : Yields (readVariableList false) fun vars =>
          ∃ values : List ValueVariable, (∀ v ∈ values, v.name ≠ "") ∧ values.map .value = vars :=
        yields_readSimpleVariables.bind fun values hvalues => yields_pure ⟨values, hvalues, rfl⟩
      obtain ⟨values, hvalues, rfl⟩ := of_readDocument hyields hread
      have htakes := (takes_simpleVariables hvalues).map (List.map Variable.value)
      rw [← map_normalValues]
      exact readDocument_of_takes htakes hback

/-- **What is read back of variables.** Variables that have been read from any text are written as a
tree; a text that gives this tree back is read as the same variables, if not all of them are plain
pairs; otherwise as plain pairs, one for each name, in its first place and with its last value. So
variables come back as they are unless they are plain pairs and name one variable twice. -/
theorem readVariableList_written {templates : Bool} {x written : String} {vars : List Variable}
    (hread : readDocument (readVariableList templates) x = .ok vars)
    (hback : GivesBack written (variablesTree vars)) :
    ∃ vars', readDocument (readVariableList templates) written = .ok vars' ∧
      (vars.all Variable.isPair = false → vars' = vars) ∧
      (vars.all Variable.isPair = true → vars'.all Variable.isPair = true ∧
        (pairsOf vars').map (·.1) = ((pairsOf vars).map (·.1)).eraseDups ∧
        ∀ name, (pairsOf vars').lookup name = (pairsOf vars).reverse.lookup name) ∧
      (vars' = vars ↔
        (vars.all Variable.isPair = true → ((pairsOf vars).map (·.1)).Nodup)) := by
  refine ⟨normalVariables vars, readDocument_variableList hread hback, fun hpairs => ?_,
    fun hpairs => ⟨?_, ?_, fun name => ?_⟩, normalVariables_eq_self_iff⟩
  · exact if_neg (ne_true_of_eq_false hpairs)
  · rw [all_isPair_normalVariables, hpairs]
  · rw [pairsOf_normalVariables hpairs, map_lastValues]
  · rw [pairsOf_normalVariables hpairs, lookup_lastValues]

/-- The variables that a text is read as. -/
def variablesOf (templates : Bool) (text : String) : List Variable :=
  (readDocument (readVariableList templates) text).toOption.getD []

theorem readDocument_variablesOf {templates : Bool} {text : String}
    (h : (readDocument (readVariableList templates) text).isOk = true) :
    readDocument (readVariableList templates) text = .ok (variablesOf templates text) :=
  readDocument_getD _ h

/-- Variables of which two have one name. -/
def repeatedText : String :=
  "- name: a\n  value: '1'\n- name: b\n  value: '2'\n- name: a\n  value: '3'\n"

/-- The variables that they are read as. -/
def repeatedVariables : List Variable := variablesOf true repeatedText

theorem read_repeatedText :
    readDocument (readVariableList true) repeatedText = .ok repeatedVariables :=
  readDocument_variablesOf (by decide +kernel)

theorem givesBack_repeatedVariables :
    GivesBack (variablesTree repeatedVariables).render (variablesTree repeatedVariables) := by
  decide +kernel

theorem readVariableList_written_repeatedVariables :
    readDocument (readVariableList true) repeatedText = .ok repeatedVariables ∧
      GivesBack (variablesTree repeatedVariables).render (variablesTree repeatedVariables) ∧
      ∃ vars', readDocument (readVariableList true) (variablesTree repeatedVariables).render
          = .ok vars' ∧
        (repeatedVariables.all Variable.isPair = false → vars' = repeatedVariables) ∧
        (repeatedVariables.all Variable.isPair = true → vars'.all Variable.isPair = true ∧
          (pairsOf vars').map (·.1) = ((pairsOf repeatedVariables).map (·.1)).eraseDups ∧
          ∀ name, (pairsOf vars').lookup name = (pairsOf repeatedVariables).reverse.lookup name) ∧
        (vars' = repeatedVariables ↔ (repeatedVariables.all Variable.isPair = true →
          ((pairsOf repeatedVariables).map (·.1)).Nodup)) :=
  ⟨read_repeatedText, givesBack_repeatedVariables,
    readVariableList_written read_repeatedText givesBack_repeatedVariables⟩

/-- One of two variables of one name does not come back. -/
theorem repeatedVariables_loseOne :
    ¬ ∀ (templates : Bool) (x written : String) (vars : List Variable),
      readDocument (readVariableList templates) x = .ok vars →
      GivesBack written (variablesTree vars) →
      readDocument (readVariableList templates) written = .ok vars := by
  have hread := read_repeatedText
  have hback := givesBack_repeatedVariables
  have hlength : repeatedVariables.length = 3 := by decide +kernel
  have hlength' : ((readDocument (readVariableList true)
      (variablesTree repeatedVariables).render).toOption.map List.length) = some 2 := by
    decide +kernel
  -- Nothing but these facts matters from here on; the variables themselves are costly to evaluate.
  generalize (variablesTree repeatedVariables).render = written at hback hlength'
  generalize repeatedVariables = vars at hread hback hlength
  intro hsame
  rw [hsame _ _ _ _ hread hback] at hlength'
  exact absurd (hlength.symm.trans (Option.some.inj hlength')) (by decide)

end PipelineExpansion.BuildProcess
