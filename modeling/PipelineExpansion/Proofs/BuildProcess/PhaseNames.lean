import PipelineExpansion.Proofs.BuildProcess.Loading
import PipelineExpansion.Proofs.Text.FreshName

/-!
# Names for phases

The last pass of `load` gives names to the phases that have none. It goes through the phases once, with
the names in use in hand: at first those that phases have, and then also those that it has given
(`namePhases_cons`). What is in use at an entry is thus what the phases were called before and what the
entries in front of it are called now (`getElem?_namePhases`).

That no name is given twice follows: a name that was given is one of an entry in front, or one of the
names that there were.

## Main results

* `NamesGiven.generated`: a name that is given is free, and of no other phase.
* `named_of_load`: the names of the phases of a process that was loaded.
-/

namespace PipelineExpansion.BuildProcess

open Template (Journal)
open Template.Journaled

/-! ### One entry -/

/-- Whether an entry is a phase without a name; an empty name is none. -/
def PhaseEntry.isUnnamed : PhaseEntry → Bool
  | .phase p => p.name.all (·.isEmpty)
  | .template _ => false

/-- The names of the phases among entries. -/
def phaseNames (entries : List PhaseEntry) : List String := entries.filterMap PhaseEntry.name?

/-- A candidate for the name of a phase is free, and those before it are not. The names are folded. -/
structure FirstFree (used : List String) (i : Nat) : Prop where
  free : Text.fold (Text.candidate "Phase" i) ∉ used
  first : ∀ j < i, Text.fold (Text.candidate "Phase" j) ∈ used

/-- What becomes of an entry where names are in use: a phase without a name gets the first name that is
free, and all else stays as it is. -/
inductive Gives (used : List String) : PhaseEntry → PhaseEntry → Prop
  | keep {e : PhaseEntry} (h : e.isUnnamed = false) : Gives used e e
  | name {p : Phase} {i : Nat} (h : (PhaseEntry.phase p).isUnnamed = true) (hfree : FirstFree used i) :
      Gives used (.phase p) (.phase { p with name := some (Text.candidate "Phase" i) })

/-- What is given depends on which names are in use, and not on their order. -/
theorem Gives.congr {used used' : List String} {e e' : PhaseEntry} (h : Gives used e e')
    (hused : ∀ name, name ∈ used ↔ name ∈ used') : Gives used' e e' := by
  cases h with
  | keep hnamed => exact .keep hnamed
  | name hunnamed hfree =>
      exact .name hunnamed ⟨fun hmem => hfree.free ((hused _).mpr hmem),
        fun j hj => (hused _).mp (hfree.first j hj)⟩

/-- The first entry gets a name if it needs one, and the others get theirs with that in use. -/
theorem namePhases_cons {used : List String} {e : PhaseEntry} {rest : List PhaseEntry}
    (hused : ∀ name ∈ phaseNames [e], Text.fold name ∈ used) :
    ∃ e' used', namePhases used (e :: rest) = e' :: namePhases used' rest ∧ Gives used e e' ∧
      ∀ name, name ∈ used' ↔ name ∈ used ++ (phaseNames [e']).map Text.fold := by
  have hkeep : ∀ name, name ∈ used ↔ name ∈ used ++ (phaseNames [e]).map Text.fold := by
    intro name
    rw [List.mem_append]
    refine ⟨.inl, fun hor => hor.elim id fun hmem => ?_⟩
    obtain ⟨own, hown, rfl⟩ := List.mem_map.mp hmem
    exact hused own hown
  cases e with
  | template r => exact ⟨_, used, rfl, .keep rfl, hkeep⟩
  | phase p =>
      rw [namePhases]
      split
      · next hunnamed =>
        obtain ⟨i, hname, hfree, hfirst⟩ := Text.freshName_spec "Phase" used
        rw [hname]
        refine ⟨_, _, rfl, .name hunnamed ⟨hfree, hfirst⟩, fun name => ?_⟩
        rw [List.mem_append, List.mem_cons, or_comm]
        exact or_congr_right List.mem_singleton.symm
      · next hnamed => exact ⟨_, used, rfl, .keep (Bool.eq_false_iff.mpr hnamed), hkeep⟩

/-! ### All entries -/

theorem length_namePhases (used : List String) (entries : List PhaseEntry) :
    (namePhases used entries).length = entries.length := by
  induction entries generalizing used with
  | nil => rfl
  | cons e rest ih =>
      cases e with
      | template r => simp [namePhases, ih]
      | phase p =>
          rw [namePhases]
          split <;> simp [ih]

/-- In use at an entry is what was in use at first, and the names of the entries in front. -/
theorem getElem?_namePhases {used : List String} {entries : List PhaseEntry}
    (hused : ∀ name ∈ phaseNames entries, Text.fold name ∈ used) {i : Nat} {e : PhaseEntry}
    (he : entries[i]? = some e) :
    ∃ e', (namePhases used entries)[i]? = some e' ∧
      Gives (used ++ (phaseNames ((namePhases used entries).take i)).map Text.fold) e e' := by
  induction entries generalizing used i with
  | nil => cases he
  | cons first rest ih =>
      have hsplit : phaseNames ([first] ++ rest) = phaseNames [first] ++ phaseNames rest :=
        List.filterMap_append
      rw [List.singleton_append] at hsplit
      rw [hsplit, List.forall_mem_append] at hused
      obtain ⟨first', used', hnames, hgives, hused'⟩ :
          ∃ e' used', namePhases used (first :: rest) = e' :: namePhases used' rest ∧
            Gives used first e' ∧ ∀ name, name ∈ used' ↔ name ∈ used ++ (phaseNames [e']).map Text.fold :=
        namePhases_cons hused.1
      rw [hnames]
      cases i with
      | zero =>
          obtain rfl := Option.some.inj he
          refine ⟨first', rfl, ?_⟩
          rwa [List.take_zero, phaseNames, List.filterMap_nil, List.map_nil, List.append_nil]
      | succ i =>
          have hrest : ∀ name ∈ phaseNames rest, Text.fold name ∈ used' := fun name hname =>
            (hused' _).mpr (List.mem_append_left _ (hused.2 name hname))
          obtain ⟨e', he', hgives'⟩ := ih hrest he
          refine ⟨e', he', hgives'.congr fun name => ?_⟩
          have hfront : phaseNames (first' :: (namePhases used' rest).take i)
              = phaseNames [first'] ++ phaseNames ((namePhases used' rest).take i) :=
            List.filterMap_append (l := [first'])
          rw [List.take_succ_cons, hfront, List.map_append, ← List.append_assoc, List.mem_append,
            List.mem_append (t := (phaseNames _).map _), hused']

/-- Entries with names for the phases that had none. In use at an entry are the names that there were,
and those of the entries in front of it. -/
structure NamesGiven (before after : List PhaseEntry) : Prop where
  length : after.length = before.length
  gives : ∀ i e, before[i]? = some e → ∃ e', after[i]? = some e' ∧
    Gives ((phaseNames before ++ phaseNames (after.take i)).map Text.fold) e e'

theorem namesGiven_withNames (entries : List PhaseEntry) :
    NamesGiven entries (withNames entries) where
  length := length_namePhases _ entries
  gives i e he := by
    have hfold : entries.filterMap (fun e => e.name?.map Text.fold) =
        (phaseNames entries).map Text.fold := List.map_filterMap.symm
    rw [withNames, hfold, List.map_append]
    exact getElem?_namePhases (fun name hname => List.mem_map_of_mem hname) he

/-- An entry with a name, or of a template, is what it was. -/
theorem Gives.eq_of_named {used : List String} {e e' : PhaseEntry} (h : Gives used e e')
    (hnamed : e.isUnnamed = false) : e' = e := by
  cases h with
  | keep => rfl
  | name hunnamed => exact absurd (hunnamed.symm.trans hnamed) Bool.noConfusion

/-- A name that is given is the word, or the word with a number behind it. -/
theorem Gives.exists_name {used : List String} {e e' : PhaseEntry} (h : Gives used e e')
    (hunnamed : e.isUnnamed = true) :
    ∃ name, e'.name? = some name ∧ Text.fold name ∉ used ∧
      (name = "Phase" ∨ ∃ n, 2 ≤ n ∧ name = "Phase" ++ toString n) := by
  cases h with
  | keep hnamed => exact absurd (hunnamed.symm.trans hnamed) Bool.noConfusion
  | @name p i _ hfree =>
      refine ⟨_, rfl, hfree.free, ?_⟩
      cases i with
      | zero => exact .inl rfl
      | succ i => exact .inr ⟨i + 2, by omega, rfl⟩

theorem Gives.exists_nonempty {used : List String} {e : PhaseEntry} {p : Phase}
    (h : Gives used e (.phase p)) : ∃ name, p.name = some name ∧ name ≠ "" := by
  cases hunnamed : e.isUnnamed with
  | true =>
      obtain ⟨name, hname, -, hform⟩ := h.exists_name hunnamed
      refine ⟨name, hname, ?_⟩
      rcases hform with rfl | ⟨n, -, rfl⟩
      · decide
      · intro hempty
        have hlength := congrArg String.length hempty
        rw [String.length_append] at hlength
        exact absurd hlength (Nat.ne_of_gt (Nat.lt_add_right _ (by decide)))
  | false =>
      obtain rfl := h.eq_of_named hunnamed
      obtain ⟨_ | name, properties, vars, steps⟩ := p
      · cases hunnamed
      · refine ⟨name, rfl, ?_⟩
        rintro rfl
        cases hunnamed

/-- A name is that of the phase at a place, and was not there before. It is the word, or the word with a
number from two on, and no other phase has it, or had it, whatever the case of letters. -/
structure IsNewName (before after : List PhaseEntry) (i : Nat) (name : String) : Prop where
  given : ∃ e, after[i]? = some e ∧ e.name? = some name
  form : name = "Phase" ∨ ∃ n, 2 ≤ n ∧ name = "Phase" ++ toString n
  ne_before : ∀ other ∈ phaseNames before, Text.sameName other name = false
  ne_others : ∀ j ≠ i, ∀ e other, after[j]? = some e → e.name? = some other →
    Text.sameName other name = false

namespace NamesGiven

variable {before after : List PhaseEntry}

/-- What becomes of an entry at a place. -/
theorem gives_at (h : NamesGiven before after) {i : Nat} {e' : PhaseEntry}
    (he' : after[i]? = some e') :
    ∃ e, before[i]? = some e ∧
      Gives ((phaseNames before ++ phaseNames (after.take i)).map Text.fold) e e' := by
  have hlt : i < before.length := h.length ▸ (List.getElem?_eq_some_iff.mp he').1
  have he := List.getElem?_eq_getElem hlt
  obtain ⟨found, hfound, hgives⟩ := h.gives i _ he
  obtain rfl := Option.some.inj (hfound.symm.trans he')
  exact ⟨_, he, hgives⟩

/-- Every phase has a name in the end. -/
theorem nonempty (h : NamesGiven before after) {p : Phase} (hp : PhaseEntry.phase p ∈ after) :
    ∃ name, p.name = some name ∧ name ≠ "" := by
  obtain ⟨i, hi⟩ := List.mem_iff_getElem?.mp hp
  obtain ⟨e, -, hgives⟩ := h.gives_at hi
  exact hgives.exists_nonempty

/-- The name of an entry that stands in front, or that had it before, is in use. -/
theorem mem_used {i j : Nat} {e' : PhaseEntry} {name : String} (hj : after[j]? = some e')
    (hname : e'.name? = some name) (hfront : j < i ∨ e' ∈ before) :
    Text.fold name ∈ (phaseNames before ++ phaseNames (after.take i)).map Text.fold := by
  refine List.mem_map_of_mem (List.mem_append.mpr ?_)
  rcases hfront with hlt | hmem
  · refine .inr (List.mem_filterMap.mpr ⟨e', List.mem_of_getElem? (i := j) ?_, hname⟩)
    rwa [List.getElem?_take_of_lt hlt]
  · exact .inl (List.mem_filterMap.mpr ⟨e', hmem, hname⟩)

/-- **A name that is given is a new one.** -/
theorem generated (h : NamesGiven before after) {i : Nat} {e : PhaseEntry} (he : before[i]? = some e)
    (hunnamed : e.isUnnamed = true) : ∃ name, IsNewName before after i name := by
  obtain ⟨e', he', hgives⟩ := h.gives i e he
  obtain ⟨name, hname, hfree, hform⟩ := hgives.exists_name hunnamed
  refine ⟨name, ⟨e', he', hname⟩, hform, fun other hother => ?_,
    fun j hj e'' other he'' hother => ?_⟩
  · refine Bool.eq_false_iff.mpr fun hsame => hfree ?_
    rw [← Text.sameName_iff.mp hsame]
    exact List.mem_map_of_mem (List.mem_append_left _ hother)
  · refine Bool.eq_false_iff.mpr fun hsame => ?_
    have hfold := Text.sameName_iff.mp hsame
    obtain ⟨first, hfirst, hgives'⟩ := h.gives_at he''
    -- Of two names that are given, the later one is free where the earlier one is in use.
    cases hunnamed' : first.isUnnamed with
    | false =>
        obtain rfl := hgives'.eq_of_named hunnamed'
        exact hfree (hfold ▸ mem_used he'' hother (.inr (List.mem_of_getElem? hfirst)))
    | true =>
        rcases Nat.lt_or_gt_of_ne hj with hlt | hgt
        · exact hfree (hfold ▸ mem_used he'' hother (.inl hlt))
        · obtain ⟨name', hname', hfree', -⟩ := hgives'.exists_name hunnamed'
          obtain rfl := Option.some.inj (hname'.symm.trans hother)
          exact hfree' (hfold ▸ mem_used he' hname (.inl hgt))

end NamesGiven

/-! ### Processes -/

/-- **Every phase of a process that was loaded has a name.** A phase that had one keeps it; the others
have got the first candidate, each, that was free when it was their turn. No name that was given is that
of another phase. The search for a name ends, whatever names are in use. -/
theorem named_of_load {x : Loader} {directory path : String} {handed : Option Parameters}
    {j j' : Journal} {q : BuildProcess}
    (h : (load x directory path handed).run.run j = (.ok q, j')) :
    (∃ name p j₁, (loadResolved x directory path handed).run.run j = (.ok (name, p), j₁) ∧
      ∃ before after, before = p.allPhases.map (·.mapPhase Phase.expanded) ∧
        q.phases = some after ∧ NamesGiven before after ∧
        (∀ e ∈ after, ∃ p name, e = .phase p ∧ p.name = some name ∧ name ≠ "") ∧
        ∀ (i : Nat) (e : PhaseEntry), before[i]? = some e → e.isUnnamed = true →
          ∃ name, IsNewName before after i name) ∧
    ∀ used, Text.Search "Phase" used 0 (Text.freshName "Phase" used) := by
  refine ⟨?_, Text.search_freshName "Phase"⟩
  obtain ⟨name, p, j₁, hload, -, rfl⟩ := run_load_eq_ok h
  have hgiven := namesGiven_withNames (p.allPhases.map (·.mapPhase Phase.expanded))
  have hresolved := (yields_loadResolved j _ j₁ hload).resolved.finished
  refine ⟨name, p, j₁, hload, _, _, rfl, rfl, hgiven, fun e he => ?_,
    fun _ _ he hunnamed => hgiven.generated he hunnamed⟩
  have hphase := hresolved.phases _ rfl e he
  cases e with
  | template r => exact hphase.elim
  | phase q =>
      obtain ⟨name, hname, hne⟩ := hgiven.nonempty he
      exact ⟨q, name, rfl, hname, hne⟩

/-- Files of a process with a phase whose name is the word in small letters, and with templates of steps
as phases before and behind it. -/
def unnamedPhaseFiles : Files := .inMemory
  [⟨none, "build.yml", "phases:\n- template: a.yml\n- phase: phase\n  steps: []\n- template: b.yml\n"⟩,
   ⟨none, "a.yml", "steps:\n- script: a\n"⟩,
   ⟨none, "b.yml", "steps:\n- script: b\n"⟩]

theorem named_of_load_phaseFiles :
    ∃ q j' after before, (load ⟨unnamedPhaseFiles, {}⟩ "" "build.yml" none).run.run {} = (.ok q, j') ∧
      q.phases = some after ∧ phaseNames after = ["Phase2", "phase", "Phase3"] ∧
      NamesGiven before after := by
  have hload : ((load ⟨unnamedPhaseFiles, {}⟩ "" "build.yml" none).run.run {}).1.toOption.any
      (fun q => decide (phaseNames (q.phases.getD []) = ["Phase2", "phase", "Phase3"])) = true := by
    decide +kernel
  generalize hrun : (load ⟨unnamedPhaseFiles, {}⟩ "" "build.yml" none).run.run {} = run at hload
  obtain ⟨_ | q, j'⟩ := run
  · cases hload
  · obtain ⟨⟨name, p, j₁, -, before, after, -, hphases, hgiven, -⟩, -⟩ := named_of_load hrun
    refine ⟨q, j', after, before, rfl, hphases, ?_, hgiven⟩
    simpa [hphases] using of_decide_eq_true hload

end PipelineExpansion.BuildProcess
