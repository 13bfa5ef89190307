import Mathlib.Data.List.Forall2
import PipelineExpansion.Pipeline.Runtime
import PipelineExpansion.Proofs.DependencyGraph
import PipelineExpansion.Proofs.Outcome
import PipelineExpansion.Proofs.Text.FreshName

/-!
# Prepared pipelines can be run

`Pipeline.prepare` names what has no name, chains stages that say nothing of dependencies, hands
pools down, and then checks the dependencies. This module says what a pipeline is like when that
succeeds: its stages, and the jobs of each stage, are `Runnable`, which means that they have names
of one form, that no two of the names count as one, that they need nothing but one another, and
that they can be put in an order in which each comes behind everything it needs. Nothing that was
said before is unsaid (`Pipeline.Completes`).

## Names

The names of stages and those of jobs are given by one rule, `nameFor`. `handOut` is that rule
alone, run over what is named and what is not; the distinctness of names is proved about it once
(`pairwise_handOut`) and carried over to stages and jobs.

## Main results

* `prepared_of_prepare`: a pipeline whose preparation succeeds is `Prepared`.
-/

namespace PipelineExpansion.Pipeline

/-! ### What is prepared -/

/-- The letters of ASCII. -/
def IsLetter (c : Char) : Prop := ('a' ≤ c ∧ c ≤ 'z') ∨ ('A' ≤ c ∧ c ≤ 'Z')

/-- A text of the form `[A-Za-z_][A-Za-z0-9_]*`. -/
def IsIdentifier (s : String) : Prop :=
  ∃ c rest, s.toList = c :: rest ∧ (IsLetter c ∨ c = '_') ∧
    ∀ d ∈ rest, IsLetter d ∨ ('0' ≤ d ∧ d ≤ '9') ∨ d = '_'

/-- Stages, or the jobs of a stage, that can be run: each has a name, no two names are the same up
to the case of ASCII letters, what they need is among them, and they can be put in an order in
which each comes behind everything it needs. -/
structure Runnable {α : Type} (name : α → Option String) (needs : α → Option (List String))
    (parts : List α) : Prop where
  named : ∀ x ∈ parts, ∃ n, name x = some n ∧ IsIdentifier n
  distinct : parts.Pairwise fun x y =>
    ∀ m n, name x = some m → name y = some n → ¬ Text.sameName m n
  known : ∀ x ∈ parts, ∀ need ∈ (needs x).getD [],
    ∃ y ∈ parts, ∃ n, name y = some n ∧ Text.sameName n need
  ordered : ∃ order : List α, order.Perm parts ∧
    ∀ before x after, order = before ++ x :: after → ∀ need ∈ (needs x).getD [],
      ∃ y ∈ before, ∃ n, name y = some n ∧ Text.sameName n need

/-- What becomes of a job: it may get a name and a pool that it did not have. -/
structure Job.Completes (before after : Job) : Prop where
  rest : after = { before with name := after.name, pool := after.pool }
  name : ∀ n, before.name = some n → after.name = some n
  pool : ∀ q, before.pool = some q → after.pool = some q

/-- What becomes of a stage: it may get a name and dependencies that it did not have, and its jobs
are completed. -/
structure Stage.Completes (before after : Stage) : Prop where
  rest :
    after = { before with name := after.name, dependsOn := after.dependsOn, jobs := after.jobs }
  name : ∀ n, before.name = some n → after.name = some n
  dependsOn : ∀ needs, before.dependsOn = some needs → after.dependsOn = some needs
  jobs : List.Forall₂ Job.Completes (before.jobs.getD []) (after.jobs.getD [])

/-- What becomes of a pipeline: its stages are completed. -/
structure Completes (before after : Pipeline) : Prop where
  rest : after = { before with stages := after.stages }
  stages : List.Forall₂ Stage.Completes (before.stages.getD []) (after.stages.getD [])

/-- A pipeline that was prepared from another. -/
structure Prepared (before after : Pipeline) : Prop where
  stages : Runnable Stage.name Stage.dependsOn (after.stages.getD [])
  jobs : ∀ s ∈ after.stages.getD [], Runnable Job.name Job.dependsOn (s.jobs.getD [])
  chained : ∀ s ∈ (after.stages.getD []).tail, s.dependsOn.isSome
  pools : ∀ s ∈ after.stages.getD [], ∀ j ∈ s.jobs.getD [],
    j.pool = none → s.pool = none ∧ after.pool = none
  completes : Completes before after

/-! ### Names -/

theorem isLetter_of_isAlpha {c : Char} (h : c.isAlpha) : IsLetter c := by
  rcases (Bool.or_eq_true c.isUpper c.isLower).mp h with hupper | hlower
  · exact .inr (of_decide_eq_true hupper)
  · have hrange : (decide ('a'.val ≤ c.val) && decide (c.val ≤ 'z'.val)) = true := hlower
    simp only [Bool.and_eq_true, decide_eq_true_eq] at hrange
    exact .inl hrange

/-- The names that are accepted are the identifiers. -/
theorem isIdentifier_of_isName {s : String} (h : isName s) : IsIdentifier s := by
  rw [isName] at h
  split at h
  · next c rest heq =>
      simp only [Bool.and_eq_true, Bool.or_eq_true, decide_eq_true_eq, List.all_eq_true,
        Char.isAlphanum] at h
      refine ⟨c, rest, heq, h.1.imp isLetter_of_isAlpha id, fun d hd => ?_⟩
      rcases h.2 d hd with (hletter | hdigit) | hunderscore
      · exact .inl (isLetter_of_isAlpha hletter)
      · simp only [Char.isDigit, Bool.and_eq_true, decide_eq_true_eq] at hdigit
        exact .inr (.inl hdigit)
      · exact .inr (.inr hunderscore)
  · cases h

/-- A name stays a name when digits are put behind it. -/
theorem isName_candidate {word : String} (h : isName word) (i : Nat) :
    isName (Text.candidate word i) := by
  cases i with
  | zero => exact h
  | succ i =>
      have hdigits : ∀ c ∈ (toString (i + 2)).toList, c.isAlphanum = true := by
        intro c hc
        rw [Nat.toString_eq_ofList_toDigits, String.toList_ofList] at hc
        have hdigit := Nat.isDigit_of_mem_toDigits (by decide) (by decide) hc
        simp [Char.isAlphanum, hdigit]
      rw [isName] at h ⊢
      rw [Text.candidate_succ, String.toList_append]
      split at h
      · next c rest heq =>
          rw [heq]
          simp only [List.cons_append, List.all_append, Bool.and_eq_true] at h ⊢
          refine ⟨h.1, h.2, List.all_eq_true.mpr fun c hc => ?_⟩
          simp [hdigits c hc]
      · cases h

theorem isName_defaultName : isName defaultName := by decide

theorem isName_freshName {word : String} (h : isName word) (used : List String) :
    isName (Text.freshName word used) := by
  obtain ⟨i, hi, -, -⟩ := Text.freshName_spec word used
  exact hi ▸ isName_candidate h i

/-- Names that are known without fault are names, no two of them count as one, and all of them
come into use. -/
theorem checkNames_eq_nil {what : String} {names used used' : List String}
    (h : checkNames what names used = ([], used')) :
    (∀ n ∈ names, isName n) ∧ names.Pairwise (Text.fold · ≠ Text.fold ·) ∧
      (∀ n ∈ names, Text.fold n ∉ used) ∧ used ⊆ used' ∧ ∀ n ∈ names, Text.fold n ∈ used' := by
  induction names generalizing used used' with
  | nil =>
      obtain rfl : used = used' := congrArg Prod.snd h
      simp
  | cons name rest ih =>
      rw [checkNames] at h
      by_cases hname : isName name
      · by_cases hused : Text.fold name ∈ used
        · simp [hname, hused] at h
        · simp only [hname, Bool.not_true, Bool.false_eq_true, if_false, List.contains_eq_mem,
            hused, decide_false, List.nil_append] at h
          obtain ⟨hnames, hdistinct, hfresh, hsub, hmem⟩ := ih h
          simp only [List.mem_cons, not_or] at hfresh
          obtain ⟨hself, hold⟩ := List.cons_subset.mp hsub
          exact ⟨List.forall_mem_cons.mpr ⟨hname, hnames⟩,
            List.pairwise_cons.mpr ⟨fun n hn heq => (hfresh n hn).1 heq.symm, hdistinct⟩,
            List.forall_mem_cons.mpr ⟨hused, fun n hn => (hfresh n hn).2⟩, hold,
            List.forall_mem_cons.mpr ⟨hself, hmem⟩⟩
      · simp [hname] at h

/-- What is known of the names of some parts when they are accepted, with the folded names in use.
-/
structure KnownNames (names used : List String) : Prop where
  isName : ∀ n ∈ names, isName n
  distinct : names.Pairwise (Text.fold · ≠ Text.fold ·)
  used : ∀ n ∈ names, Text.fold n ∈ used

theorem knownNames_of_eq_ok {what : String} {names used : List String}
    (h : knownNames what names = .ok used) : KnownNames names used := by
  rw [Pipeline.knownNames] at h
  split at h
  · next used' heq =>
      obtain rfl : used' = used := Except.ok.inj h
      obtain ⟨hnames, hdistinct, -, -, hmem⟩ := checkNames_eq_nil heq
      exact ⟨hnames, hdistinct, hmem⟩
  · cases h

/-! ### Handing out names -/

/-- The names of parts one after another, those that are missing generated. -/
def handOut (word : String) (single : Bool) : List String → List (Option String) → List String
  | _, [] => []
  | used, name :: rest =>
    (nameFor word single used name).1 ::
      handOut word single (nameFor word single used name).2 rest

/-- Every name that is handed out is an identifier. -/
theorem isName_of_mem_handOut {word : String} (hword : isName word) {single : Bool}
    {used : List String} {names : List (Option String)}
    (hnames : ∀ n, some n ∈ names → isName n) :
    ∀ n ∈ handOut word single used names, isName n := by
  induction names generalizing used with
  | nil => intro n hn; cases hn
  | cons name rest ih =>
      rw [handOut]
      refine List.forall_mem_cons.mpr ⟨?_, ih fun n hn => hnames n (List.mem_cons_of_mem _ hn)⟩
      cases name with
      | some n => exact hnames n List.mem_cons_self
      | none =>
          rw [nameFor]
          split
          · exact isName_defaultName
          · exact isName_freshName hword used

/-- A name that is handed out was there before, or it is new. -/
theorem mem_or_notMem_of_mem_handOut {word : String} {used : List String}
    {names : List (Option String)} :
    ∀ n ∈ handOut word false used names, some n ∈ names ∨ Text.fold n ∉ used := by
  induction names generalizing used with
  | nil => intro n hn; cases hn
  | cons name rest ih =>
      rw [handOut]
      refine List.forall_mem_cons.mpr ⟨?_, fun n hn => ?_⟩
      · cases name with
        | some n => exact .inl List.mem_cons_self
        | none =>
            obtain ⟨i, hi, hfree, -⟩ := Text.freshName_spec word used
            exact .inr (by simpa [nameFor, hi] using hfree)
      · rcases ih n hn with hold | hnew
        · exact .inl (List.mem_cons_of_mem _ hold)
        · refine .inr fun hmem => hnew ?_
          cases name with
          | some m => exact hmem
          | none => exact List.mem_cons_of_mem _ hmem

/-- No two names that are handed out count as one. A generated name is put in use, which keeps
later generated names away from it; names that were there are in use from the beginning. -/
theorem pairwise_handOut {word : String} {used : List String} {names : List (Option String)}
    (hdistinct : (names.filterMap id).Pairwise (Text.fold · ≠ Text.fold ·))
    (hused : ∀ n, some n ∈ names → Text.fold n ∈ used) :
    (handOut word false used names).Pairwise (Text.fold · ≠ Text.fold ·) := by
  induction names generalizing used with
  | nil => exact List.Pairwise.nil
  | cons name rest ih =>
      rw [handOut]
      have hrest : ∀ n, some n ∈ rest → Text.fold n ∈ used :=
        fun n hn => hused n (List.mem_cons_of_mem _ hn)
      cases name with
      | some m =>
          rw [List.filterMap_cons_some (f := id) (b := m) rfl, List.pairwise_cons] at hdistinct
          refine List.pairwise_cons.mpr ⟨fun n hn heq => ?_, ih hdistinct.2 hrest⟩
          rcases mem_or_notMem_of_mem_handOut n hn with hold | hnew
          · exact hdistinct.1 n (List.mem_filterMap.mpr ⟨_, hold, rfl⟩) heq
          · exact hnew (heq ▸ hused m List.mem_cons_self)
      | none =>
          rw [List.filterMap_cons_none (f := id) rfl] at hdistinct
          obtain ⟨i, hi, hfree, -⟩ := Text.freshName_spec word used
          simp only [nameFor, Bool.false_eq_true, if_false, hi]
          refine List.pairwise_cons.mpr ⟨fun n hn heq => ?_,
            ih hdistinct fun n hn => List.mem_cons_of_mem _ (hrest n hn)⟩
          rcases mem_or_notMem_of_mem_handOut n hn with hold | hnew
          · exact hfree (heq ▸ hrest n hold)
          · exact hnew (heq ▸ List.mem_cons_self)

/-- The names that parts have in the end are accepted, and no two count as one. -/
theorem handOut_accepted (word : String) (hword : isName word) {used : List String}
    {names : List (Option String)} (hknown : KnownNames (names.filterMap id) used) :
    (∀ n ∈ handOut word (names.length = 1) used names, isName n) ∧
      (handOut word (names.length = 1) used names).Pairwise (Text.fold · ≠ Text.fold ·) := by
  have hmem : ∀ n, some n ∈ names → n ∈ names.filterMap id :=
    fun n hn => List.mem_filterMap.mpr ⟨_, hn, rfl⟩
  refine ⟨isName_of_mem_handOut hword fun n hn => hknown.isName n (hmem n hn), ?_⟩
  by_cases hsingle : names.length = 1
  · obtain ⟨name, rfl⟩ := List.length_eq_one_iff.mp hsingle
    exact List.pairwise_singleton _ _
  · rw [decide_eq_false hsingle]
    exact pairwise_handOut hknown.distinct fun n hn => hknown.used n (hmem n hn)

/-- The names that parts have in the end are identifiers, and no two count as one. -/
theorem handOut_distinct (word : String) (hword : isName word) {used : List String}
    {names : List (Option String)} (hknown : KnownNames (names.filterMap id) used) :
    (∀ n ∈ handOut word (names.length = 1) used names, IsIdentifier n) ∧
      (handOut word (names.length = 1) used names).Pairwise (Text.fold · ≠ Text.fold ·) :=
  (handOut_accepted word hword hknown).imp_left fun hnames n hn =>
    isIdentifier_of_isName (hnames n hn)

/-- A part that has a name keeps it. -/
theorem nameFor_some (word : String) (single : Bool) (used : List String) (name : String) :
    nameFor word single used (some name) = (name, used) := rfl

/-- Nothing at all can be run. -/
theorem runnable_nil {α : Type} {name : α → Option String} {needs : α → Option (List String)} :
    Runnable name needs [] :=
  ⟨by simp, .nil, by simp, [], .refl _, by simp⟩

/-! ### Jobs -/

theorem nameJobList_cons (single : Bool) (pool : Option Pool) (used : List String) (j : Job)
    (rest : List Job) :
    nameJobList single pool used (j :: rest) =
      { j with name := some (nameFor "Job" single used j.name).1, pool := j.pool <|> pool } ::
        nameJobList single pool (nameFor "Job" single used j.name).2 rest := rfl

/-- The jobs of a stage get the names that are handed out, and the pool that is handed down. -/
theorem nameJobList_spec (single : Bool) (pool : Option Pool) (used : List String)
    (jobs : List Job) :
    (nameJobList single pool used jobs).map (·.name)
        = (handOut "Job" single used (jobs.map (·.name))).map some ∧
      List.Forall₂ Job.Completes jobs (nameJobList single pool used jobs) ∧
      ∀ j ∈ nameJobList single pool used jobs, j.pool = none → pool = none := by
  induction jobs generalizing used with
  | nil => exact ⟨rfl, List.Forall₂.nil, fun j hj => by cases hj⟩
  | cons j rest ih =>
      obtain ⟨hnames, hcompletes, hpools⟩ := ih (nameFor "Job" single used j.name).2
      rw [nameJobList_cons]
      refine ⟨?_, .cons ⟨rfl, fun n hn => ?_, fun q hq => ?_⟩ hcompletes,
        List.forall_mem_cons.mpr ⟨fun hnone => ?_, hpools⟩⟩
      · simp only [List.map_cons, handOut, hnames]
      · simp only [hn, nameFor_some]
      · simp [hq]
      · have hor : (j.pool <|> pool) = none := hnone
        rw [Option.orElse_eq_orElse, Option.orElse_eq_or] at hor
        exact (Option.or_eq_none_iff.mp hor).2

/-- Names that were handed out to parts, none of which count as one. -/
theorem named_and_distinct {α : Type} {name : α → Option String} {parts : List α}
    {names : List String} (h : parts.map name = names.map some)
    (hnames : (∀ n ∈ names, IsIdentifier n) ∧ names.Pairwise (Text.fold · ≠ Text.fold ·)) :
    (∀ x ∈ parts, ∃ n, name x = some n ∧ IsIdentifier n) ∧
      parts.Pairwise fun x y => ∀ m n, name x = some m → name y = some n →
        ¬ Text.sameName m n := by
  constructor
  · intro x hx
    obtain ⟨n, hn, heq⟩ := List.mem_map.mp (h ▸ List.mem_map_of_mem hx)
    exact ⟨n, heq.symm, hnames.1 n hn⟩
  · have hpair : (parts.map name).Pairwise fun a b =>
        ∀ m n, a = some m → b = some n → ¬ Text.sameName m n := by
      rw [h, List.pairwise_map]
      refine hnames.2.imp fun {a b} hab m n hm hn => ?_
      obtain rfl := Option.some.inj hm
      obtain rfl := Option.some.inj hn
      simpa using hab
    exact List.pairwise_map.mp hpair

/-- Parts that were given names and whose graph passes the check can be run. -/
theorem runnable_of_check {α : Type} {name : α → Option String}
    {needs : α → Option (List String)} {parts : List α} {names : List String}
    (h : parts.map name = names.map some)
    (hnames : (∀ n ∈ names, IsIdentifier n) ∧ names.Pairwise (Text.fold · ≠ Text.fold ·))
    (hcheck : DependencyGraph.check
      (parts.map fun x => ⟨(name x).getD "", (needs x).getD []⟩) = .ok ()) :
    Runnable name needs parts := by
  obtain ⟨hnamed, hdistinct⟩ := named_and_distinct h hnames
  have hname : ∀ y ∈ parts, ∀ {need}, Text.sameName ((name y).getD "") need →
      ∃ n, name y = some n ∧ Text.sameName n need := by
    intro y hy need hsame
    obtain ⟨n, hn, -⟩ := hnamed y hy
    exact ⟨n, hn, by simpa [hn] using hsame⟩
  refine ⟨hnamed, hdistinct, fun x hx need hneed => ?_, ?_⟩
  · obtain ⟨y, hy, hsame⟩ := DependencyGraph.exists_sameName_of_check hcheck hx hneed
    exact ⟨y, hy, hname y hy hsame⟩
  · obtain ⟨order, hperm, horder⟩ := DependencyGraph.exists_order_of_check hcheck
    refine ⟨order, hperm, fun before x after heq need hneed => ?_⟩
    obtain ⟨y, hy, hsame⟩ := horder before x after heq need hneed
    have hparts : y ∈ parts :=
      hperm.subset (heq ▸ List.mem_append_left _ hy)
    exact ⟨y, hy, hname y hparts hsame⟩

/-- Jobs whose names are accepted are completed, and can be run if their graph passes the check. -/
theorem nameJobs_spec {pool : Option Pool} {jobs jobs' : Option (List Job)}
    (h : nameJobs pool jobs = .ok jobs') :
    List.Forall₂ Job.Completes (jobs.getD []) (jobs'.getD []) ∧
      (∀ j ∈ jobs'.getD [], j.pool = none → pool = none) ∧
      ((jobGraph (jobs'.getD [])).check = .ok () →
        Runnable Job.name Job.dependsOn (jobs'.getD [])) := by
  cases jobs with
  | none =>
      obtain rfl : none = jobs' := Except.ok.inj h
      exact ⟨.nil, by simp, fun _ => runnable_nil⟩
  | some jobs =>
      rw [nameJobs] at h
      obtain ⟨used, hused, hjobs⟩ := bind_eq_ok.mp h
      obtain rfl : _ = jobs' := Except.ok.inj hjobs
      obtain ⟨hnames, hcompletes, hpools⟩ :=
        nameJobList_spec (jobs.length = 1) pool used jobs
      refine ⟨hcompletes, hpools, runnable_of_check hnames ?_⟩
      have hknown := knownNames_of_eq_ok hused
      rw [← Function.id_comp Job.name, ← List.filterMap_map] at hknown
      have hdistinct := handOut_distinct "Job" (by decide) hknown
      rwa [List.length_map] at hdistinct

/-! ### Stages -/

/-- A stage with its name, its dependencies and its jobs as preparing leaves them. -/
def Stage.prepared (s : Stage) (name : String) (previous : Option String)
    (jobs : Option (List Job)) : Stage :=
  { s with name := some name, dependsOn := s.dependsOn <|> previous.map fun p => [p], jobs }

/-- Stages that are all named: the first of them with its jobs, and the rest behind it. -/
theorem nameStageList_cons_ok {single : Bool} {pool : Option Pool} {used : List String}
    {previous : Option String} {s : Stage} {rest stages' : List Stage}
    (h : nameStageList single pool used previous (s :: rest) = (stages', .ok ())) :
    ∃ jobs rest', nameJobs (s.pool <|> pool) s.jobs = .ok jobs ∧
      nameStageList single pool (nameFor "Stage" single used s.name).2
        (some (nameFor "Stage" single used s.name).1) rest = (rest', .ok ()) ∧
      stages' = s.prepared (nameFor "Stage" single used s.name).1 previous jobs :: rest' := by
  rw [nameStageList] at h
  cases hjobs : nameJobs (s.pool <|> pool) s.jobs with
  | error d =>
      simp only [hjobs] at h
      cases h
  | ok jobs =>
      simp only [hjobs] at h
      cases hrest : nameStageList single pool (nameFor "Stage" single used s.name).2
          (some (nameFor "Stage" single used s.name).1) rest with
      | mk rest' outcome =>
          simp only [hrest] at h
          obtain ⟨rfl, rfl⟩ := Prod.mk.inj h
          exact ⟨jobs, rest', rfl, rfl, rfl⟩

/-- What a stage may need is what it says, or else the stage before it. -/
theorem Stage.isSome_dependsOn_prepared (s : Stage) (name p : String) (jobs : Option (List Job)) :
    (s.prepared name (some p) jobs).dependsOn.isSome := by
  cases h : s.dependsOn <;> simp [prepared, h]

/-- What naming the stages does to them. Jobs can be run if their graph passes the check. -/
structure NamedStages (pool : Option Pool) (previous : Option String)
    (stages stages' : List Stage) : Prop where
  completes : List.Forall₂ Stage.Completes stages stages'
  chained : ∀ s ∈ stages'.tail, s.dependsOn.isSome
  follows : previous.isSome → ∀ s ∈ stages', s.dependsOn.isSome
  pools : ∀ s ∈ stages', ∀ j ∈ s.jobs.getD [], j.pool = none → s.pool = none ∧ pool = none
  jobs : ∀ s ∈ stages', (jobGraph (s.jobs.getD [])).check = .ok () →
    Runnable Job.name Job.dependsOn (s.jobs.getD [])

theorem nameStageList_spec {single : Bool} {pool : Option Pool} {used : List String}
    {previous : Option String} {stages stages' : List Stage}
    (h : nameStageList single pool used previous stages = (stages', .ok ())) :
    stages'.map (·.name) = (handOut "Stage" single used (stages.map (·.name))).map some ∧
      NamedStages pool previous stages stages' := by
  induction stages generalizing used previous stages' with
  | nil =>
      obtain rfl : [] = stages' := congrArg Prod.fst h
      exact ⟨rfl, .nil, by simp, by simp, by simp, by simp⟩
  | cons s rest ih =>
      obtain ⟨jobs, rest', hjobs, hrest, rfl⟩ := nameStageList_cons_ok h
      obtain ⟨hnames, hnamed⟩ := ih hrest
      obtain ⟨hcompletes, hpools, hrun⟩ := nameJobs_spec hjobs
      refine ⟨?_, .cons ⟨rfl, fun n hn => ?_, fun needs hneeds => ?_, hcompletes⟩
        hnamed.completes,
        hnamed.follows rfl, fun hprev => ?_, ?_, List.forall_mem_cons.mpr ⟨hrun, hnamed.jobs⟩⟩
      · simp only [List.map_cons, handOut, hnames, Stage.prepared]
      · simp only [Stage.prepared, hn, nameFor_some]
      · simp [Stage.prepared, hneeds]
      · obtain ⟨p, rfl⟩ := Option.isSome_iff_exists.mp hprev
        exact List.forall_mem_cons.mpr
          ⟨s.isSome_dependsOn_prepared _ p jobs, hnamed.follows rfl⟩
      · refine List.forall_mem_cons.mpr ⟨fun j hj hnone => ?_, hnamed.pools⟩
        have hor := hpools j hj hnone
        rw [Option.orElse_eq_orElse, Option.orElse_eq_or] at hor
        exact Option.or_eq_none_iff.mp hor

/-! ### Pipelines -/

/-- Naming succeeds when the names of the stages are accepted and every stage can be named. -/
theorem initializeNames_eq_ok {p p' : Pipeline} :
    p.initializeNames = (p', .ok ()) ↔ ∃ used stages,
      knownNames "Stage" ((p.stages.getD []).filterMap Stage.name) = .ok used ∧
      nameStageList ((p.stages.getD []).length = 1) p.pool used none (p.stages.getD []) =
        (stages, .ok ()) ∧
      p' = { p with stages := some stages } := by
  rw [initializeNames]
  cases hused : knownNames "Stage" ((p.stages.getD []).filterMap Stage.name) with
  | error d => simp
  | ok used =>
      cases hlist : nameStageList ((p.stages.getD []).length = 1) p.pool used none
          (p.stages.getD []) with
      | mk stages outcome =>
          simp only [hlist]
          constructor
          · intro h
            obtain ⟨rfl, rfl⟩ := Prod.mk.inj h
            exact ⟨used, stages, rfl, hlist, rfl⟩
          · rintro ⟨used', stages', hused', hlist', rfl⟩
            obtain rfl := Except.ok.inj hused'
            obtain ⟨rfl, rfl⟩ := Prod.mk.inj (hlist.symm.trans hlist')
            rfl

/-- Dependencies that are accepted are those of graphs that pass the check. -/
theorem check_of_checkDependencies {p : Pipeline} (h : p.checkDependencies = .ok ()) :
    (stageGraph (p.stages.getD [])).check = .ok () ∧
      ∀ s ∈ p.stages.getD [], (jobGraph (s.jobs.getD [])).check = .ok () := by
  obtain ⟨_, hstages, hjobs⟩ := bind_eq_ok.mp h
  exact ⟨mapError_eq_ok.mp hstages, fun s hs => mapError_eq_ok.mp (forM_eq_ok.mp hjobs s hs)⟩

/-- A preparation that succeeds has named everything and has found the dependencies in order. -/
theorem initializeNames_of_prepare {p p' : Pipeline} (h : p.prepare = (p', .ok ())) :
    p.initializeNames = (p', .ok ()) ∧ p'.checkDependencies = .ok () := by
  rw [prepare] at h
  cases hnames : p.initializeNames with
  | mk named outcome =>
      cases outcome with
      | error d => rw [hnames] at h; cases congrArg Prod.snd h
      | ok u =>
          rw [hnames] at h
          obtain ⟨rfl, hchecks⟩ := Prod.mk.inj h
          obtain ⟨_, hdeps, -⟩ := bind_eq_ok.mp hchecks
          exact ⟨rfl, hdeps⟩

/-- **A pipeline whose preparation succeeds is prepared.** The names handed out to its stages make
them distinct, which together with the checks of the graphs makes stages and jobs runnable. -/
theorem prepared_of_prepare {p p' : Pipeline} (h : p.prepare = (p', .ok ())) : Prepared p p' := by
  obtain ⟨hnames, hdeps⟩ := initializeNames_of_prepare h
  obtain ⟨hstageGraph, hjobGraphs⟩ := check_of_checkDependencies hdeps
  rw [initializeNames] at hnames
  cases hused : Pipeline.knownNames "Stage" ((p.stages.getD []).filterMap (·.name)) with
  | error d => simp only [hused] at hnames; cases congrArg Prod.snd hnames
  | ok used =>
      simp only [hused] at hnames
      cases hlist : nameStageList ((p.stages.getD []).length = 1) p.pool used none
          (p.stages.getD []) with
      | mk stages' outcome =>
          simp only [hlist] at hnames
          obtain ⟨rfl, rfl⟩ := Prod.mk.inj hnames
          obtain ⟨hgiven, hnamed⟩ := nameStageList_spec hlist
          have hknown := knownNames_of_eq_ok hused
          rw [← Function.id_comp Stage.name, ← List.filterMap_map] at hknown
          have hdistinct := handOut_distinct "Stage" (by decide) hknown
          rw [List.length_map] at hdistinct
          exact ⟨runnable_of_check hgiven hdistinct hstageGraph,
            fun s hs => hnamed.jobs s hs (hjobGraphs s hs), hnamed.chained, hnamed.pools,
            rfl, hnamed.completes⟩

/-- Three stages: one that is called like the names that are generated, one that needs it by
another spelling, and one that says nothing, with two jobs of which one has no name. -/
def threeStages : Pipeline where
  pool := some { name := some "machines" }
  stages := some [
    { name := some "stage", jobs := some [{ name := none }] },
    { name := none, dependsOn := some ["STAGE"] },
    { name := none, jobs := some [{ name := some "JOB", dependsOn := some ["job2"] }, { name := none }] }]

theorem prepared_threeStages :
    threeStages.prepare = (threeStages.prepare.1, .ok ()) ∧
      Prepared threeStages threeStages.prepare.1 :=
  ⟨rfl, prepared_of_prepare rfl⟩

end PipelineExpansion.Pipeline
