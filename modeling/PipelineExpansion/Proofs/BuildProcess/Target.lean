import PipelineExpansion.Proofs.BuildProcess.Variable

/-!
# Targets are read back

A queue or a deployment group of which there is only the name is written as that name, a server of
which nothing is said as `true`. The readers take these short forms for what they are short for.
The legs of a matrix are written in an order of their own; a dictionary is the same in whatever
order its entries come.

## Main results

* `yields_readMatrix`, `takes_readMatrix`: a matrix is read back from its legs, in whatever order
  they come.
* `takes_readQueue`, `takes_readDeployment`, `takes_readServer`: targets are read back as they
  are.
-/

namespace PipelineExpansion.BuildProcess

open Yaml

variable {σ : Type}

/-! ### Texts -/

theorem yields_readTexts : Yields readTexts fun items => ∀ s ∈ items, s ≠ "" := by
  refine yields_bind_of_forall fun single => ?_
  split
  · refine yields_bind_of_forall fun s => yields_pure ?_
    split
    · nofun
    · next h =>
      rw [List.forall_mem_singleton]
      exact fun hs => h (by simp [hs])
  · exact yields_texts

theorem takes_readTexts_single {s : String} (hs : s ≠ "") :
    Takes readTexts (Tree.text s).events [s] := by
  refine takes_scalarComes_bind (takes_scalar_bind fun key hkey hnull => ?_)
  rw [if_neg (by simp [hkey, hnull, hs]), hkey]
  exact takes_pure [s]

theorem takes_readTexts_sequence {items : List String} (h : ∀ s ∈ items, s ≠ "") :
    Takes readTexts (Tree.sequence (items.map .text)).events items :=
  takes_scalarComes_bind (takes_texts h)

theorem entries_textsEntry {body : σ → Scalar → Reader σ} {name : String} (set : List String → σ)
    {items : List String} (h : ∀ s ∈ items, s ≠ "")
    (hbody : ∀ key, key.text = name →
      body (set []) key = readTexts >>= fun items => pure (set items)) :
    Entries (fun a => Reader.scalar >>= body a) (set []) (textsEntry name items) (set items) := by
  unfold textsEntry
  split
  · exact .nil _
  · next s =>
    have hs : s ≠ "" := h s List.mem_cons_self
    exact .single (takes_key ((takes_readTexts_single hs).map set) hbody)
  · exact .single (takes_key ((takes_readTexts_sequence h).map set) hbody)

theorem keys_textsEntry (name : String) (items : List String) :
    (Tree.keys (textsEntry name items)).Sublist [name] := by
  unfold textsEntry
  split
  · exact List.nil_sublist _
  · exact .refl _
  · exact .refl _

/-! ### Matrices -/

/-- What holds of every matrix that has been read. -/
structure SoundMatrix (m : Matrix) : Prop where
  canonical : m.Canonical
  legs : ∀ e ∈ m, e.1 ≠ ""
  distinct : m.Pairwise fun a b => Text.sameName a.1 b.1 = false
  vars : ∀ e ∈ m, Dictionary.Canonical e.2

theorem soundMatrix_nil : SoundMatrix [] := ⟨Dictionary.canonical_nil, nofun, .nil, nofun⟩

/-- A leg whose name no other has. -/
theorem SoundMatrix.put {m : Matrix} (h : SoundMatrix m) {leg : String} (hleg : leg ≠ "")
    {vars : Dictionary String} (hvars : vars.Canonical)
    (hnew : ∀ name ∈ m.names, Text.sameName name leg = false) : SoundMatrix (m.put leg vars) := by
  refine ⟨h.canonical.put, fun e he => ?_, ?_, fun e he => ?_⟩
  · rcases Dictionary.mem_put he with rfl | hmem
    · exact hleg
    · exact h.legs e hmem
  · refine Dictionary.pairwise_put (R := fun a b => Text.sameName a b = false)
      (fun a b hab => (NameOrder.same_comm .ignoreCase b a).trans hab) h.distinct hnew
        fun hmem => ?_
    exact absurd (hnew leg hmem) (by simp [Text.sameName])
  · rcases Dictionary.mem_put he with rfl | hmem
    · exact hvars
    · exact h.vars e hmem

theorem yields_readMatrix : Yields readMatrix SoundMatrix := by
  refine yields_mappingOf soundMatrix_nil fun m h => ?_
  refine yields_bind_of_forall fun span => yields_nonEmpty.bind fun leg hleg => ?_
  split
  · exact yields_failAt_bind _ _ _ _
  · next hnew =>
    refine (yields_textMap .exact).bind fun vars hvars => yields_pure (h.put hleg hvars.1 ?_)
    simpa [Text.sameName] using hnew

/-- **A matrix is read back from its legs**, in whatever order they come. -/
theorem takes_readMatrix {m legs : Matrix} (h : SoundMatrix m) (hlegs : legs.Perm m) :
    Takes readMatrix (Tree.ofEntries (legs.map fun e => (e.1, Tree.ofTexts e.2))).events m := by
  have hdistinct : legs.Pairwise fun a b => Text.sameName a.1 b.1 = false :=
    h.distinct.perm hlegs.symm fun hab => (NameOrder.same_comm .ignoreCase _ _).trans hab
  have hkeys : (Tree.keys (legs.map fun e => (e.1, Tree.ofTexts e.2))).Nodup := by
    rw [Tree.keys, List.map_map]
    exact (hlegs.map _).nodup_iff.mpr h.canonical.nodup_names
  have hsame : Dictionary.ofEntries (legs.map fun e => (e.1, id e.2)) = m :=
    Dictionary.ofEntries_eq_of_perm h.canonical (by simpa using hlegs)
  rw [← hsame]
  refine takes_mappingOf hkeys
    (entries_put (fun a b => Text.sameName a b = false) (fun d e he hfresh => ?_) hdistinct)
  have hmem := hlegs.mem_iff.mp he
  have hvars : Takes (Reader.textMap .exact) (Tree.ofTexts e.2).events e.2 := by
    have htake :=
      takes_textMap .exact ((h.vars e hmem).imp fun hlt => by simp [NameOrder.same, hlt.ne])
    rwa [Dictionary.ofEntries_eq_of_perm (h.vars e hmem) (.refl _)] at htake
  refine takes_currentSpan_bind fun span => (takes_nonEmpty (h.legs e hmem)).bind ?_
  rw [if_neg (by simpa [Text.sameName] using hfresh)]
  exact hvars.map (d.put e.1 ·)

/-- The entry for a matrix. A reader may tell a matrix without legs from none at all; the writer
does not. -/
theorem entries_matrixEntry {body : σ → Scalar → Reader σ} {a b : σ} (set : Matrix → σ)
    {m : Matrix}
    (h : SoundMatrix m) (hempty : m = [] → b = a) (hset : m ≠ [] → b = set m)
    (hbody : ∀ key, key.text = "matrix" → m ≠ [] →
      body a key = readMatrix >>= fun m => pure (set m)) :
    Entries (fun a => Reader.scalar >>= body a) a (matrixEntry m) b := by
  refine .unless (fun hm => hempty (List.isEmpty_iff.mp hm)) fun hne => ?_
  have hm : m ≠ [] := fun hm => hne (List.isEmpty_iff.mpr hm)
  rw [hset hm]
  exact takes_key ((takes_readMatrix h (List.mergeSort_perm _ _)).map set) fun key hkey =>
    hbody key hkey hm

theorem keys_matrixEntry (m : Matrix) : (Tree.keys (matrixEntry m)).Sublist ["matrix"] :=
  keys_unless _ _ _

/-! ### Queues -/

/-- What holds of every queue that has been read. -/
structure QueueTarget.Sound (t : QueueTarget) : Prop where
  name : t.name ≠ some ""
  continueOnError : t.continueOnError ≠ some ""
  demands : ∀ s ∈ t.demands, s ≠ ""
  matrix : SoundMatrix t.matrix
  parallel : t.parallel ≠ some ""
  timeoutInMinutes : t.timeoutInMinutes ≠ some ""
  exclusive : t.matrix = [] ∨ t.parallel = none

/-- What holds while a queue is read: before one of matrix and parallel is given, neither is there. -/
def QueueTarget.Reached (state : QueueTarget × Option String) : Prop :=
  state.1.Sound ∧ (state.2 = none → state.1.matrix = [] ∧ state.1.parallel = none)

theorem yields_refuseAfter (given : Bool) (previous current : String) (span : Span) :
    Yields (Reader.refuseAfter given previous current span) fun _ => given = false := by
  rw [Reader.refuseAfter]
  split
  · exact yields_failAt _ _ _
  · next h => exact yields_pure (Bool.eq_false_of_not_eq_true h)

theorem QueueTarget.yields_property {state : QueueTarget × Option String} (h : Reached state) :
    Yields (QueueTarget.property state) Reached := by
  obtain ⟨t, given⟩ := state
  obtain ⟨hsound, hgiven⟩ := h
  refine yields_bind_of_forall fun key => ?_
  split
  · exact yields_nonEmpty.bind fun s hs =>
      yields_pure ⟨{ hsound with name := some_ne_some_empty hs }, hgiven⟩
  · exact yields_nonEmpty.bind fun s hs =>
      yields_pure ⟨{ hsound with continueOnError := some_ne_some_empty hs }, hgiven⟩
  · exact yields_readTexts.bind fun items hitems =>
      yields_pure ⟨{ hsound with demands := hitems }, hgiven⟩
  · refine (yields_refuseAfter _ _ _ _).bind fun _ hnone => ?_
    obtain ⟨-, hparallel⟩ :=
      hgiven (Option.isNone_iff_eq_none.mp (Option.isSome_eq_false_iff.mp hnone))
    exact yields_readMatrix.bind fun m hm =>
      yields_pure ⟨{ hsound with matrix := hm, exclusive := .inr hparallel }, nofun⟩
  · refine (yields_refuseAfter _ _ _ _).bind fun _ hnone => ?_
    obtain ⟨hmatrix, -⟩ :=
      hgiven (Option.isNone_iff_eq_none.mp (Option.isSome_eq_false_iff.mp hnone))
    exact yields_nonEmpty.bind fun s hs =>
      yields_pure ⟨{ hsound with parallel := some_ne_some_empty hs, exclusive := .inl hmatrix },
        nofun⟩
  · exact yields_nonEmpty.bind fun s hs =>
      yields_pure ⟨{ hsound with timeoutInMinutes := some_ne_some_empty hs }, hgiven⟩
  · exact yields_failAt _ _ _

theorem yields_readQueue : Yields readQueue QueueTarget.Sound := by
  have hempty : ∀ name, name ≠ some "" → QueueTarget.Sound { name := name } :=
    fun name hname => ⟨hname, nofun, nofun, soundMatrix_nil, nofun, nofun, .inl rfl⟩
  refine yields_bind_of_forall fun single => ?_
  split
  · exact yields_nonEmpty.bind fun s hs => yields_pure (hempty _ (some_ne_some_empty hs))
  · refine Yields.bind (P := QueueTarget.Reached) ?_ fun state h => yields_pure h.1
    exact yields_mappingOf ⟨hempty none nofun, fun _ => ⟨rfl, rfl⟩⟩ fun _ h =>
      QueueTarget.yields_property h

/-- The entries of a queue. -/
def QueueTarget.entries (t : QueueTarget) : List (String × Tree) :=
  filledEntry "name" t.name ++ filledEntry "continueOnError" t.continueOnError
    ++ filledEntry "parallel" t.parallel ++ filledEntry "timeoutInMinutes" t.timeoutInMinutes
    ++ textsEntry "demands" t.demands ++ matrixEntry t.matrix

/-- Nothing is in the way of what is written: of matrix and parallel there is one at most. -/
theorem entries_queue {t : QueueTarget} (h : t.Sound) :
    ∃ given, Entries QueueTarget.property ({}, none) t.entries (t, given) := by
  obtain ⟨name, continueOnError, demands, matrix, parallel, timeout⟩ := t
  have hexclusive : matrix ≠ [] → parallel = none := h.exclusive.resolve_left
  let given := parallel.map fun _ => "parallel"
  refine ⟨if matrix = [] then given else some "matrix", ?_⟩
  let t₁ : QueueTarget := { name }
  let t₂ : QueueTarget := { t₁ with continueOnError }
  let t₃ : QueueTarget := { t₂ with parallel }
  let t₄ : QueueTarget := { t₃ with timeoutInMinutes := timeout }
  let t₅ : QueueTarget := { t₄ with demands }
  have hname : Entries QueueTarget.property ({}, none) (filledEntry "name" name) (t₁, none) :=
    entries_nonEmpty_filled (fun v => (({ name := v } : QueueTarget), none)) h.name
      fun key hkey => by simp only [hkey]
  have hcontinue : Entries QueueTarget.property (t₁, none)
      (filledEntry "continueOnError" continueOnError) (t₂, none) :=
    entries_nonEmpty_filled (fun v => ({ t₁ with continueOnError := v }, none)) h.continueOnError
      fun key hkey => by simp only [hkey]
  have hparallel : Entries QueueTarget.property (t₂, none) (filledEntry "parallel" parallel)
      (t₃, given) :=
    entries_nonEmpty_filled (fun v => ({ t₂ with parallel := v }, v.map fun _ => "parallel"))
      h.parallel fun key hkey => by simp only [hkey]; rfl
  have htimeout : Entries QueueTarget.property (t₃, given)
      (filledEntry "timeoutInMinutes" timeout) (t₄, given) :=
    entries_nonEmpty_filled (fun v => ({ t₃ with timeoutInMinutes := v }, given))
      h.timeoutInMinutes fun key hkey => by simp only [hkey]
  have hdemands : Entries QueueTarget.property (t₄, given) (textsEntry "demands" demands)
      (t₅, given) :=
    entries_textsEntry (fun v => ({ t₄ with demands := v }, given)) h.demands
      fun key hkey => by simp only [hkey]
  have hmatrix : Entries QueueTarget.property (t₅, given) (matrixEntry matrix)
      ({ t₅ with matrix }, if matrix = [] then given else some "matrix") := by
    refine entries_matrixEntry (fun v => ({ t₅ with matrix := v }, some "matrix")) h.matrix ?_ ?_ ?_
    · rintro rfl
      rfl
    · intro hne
      rw [if_neg hne]
    · intro key hkey hne
      simp only [hkey, t₅, t₄, t₃, given, hexclusive hne]
      rfl
  exact ((((hname.append hcontinue).append hparallel).append htimeout).append hdemands).append
    hmatrix

theorem nodup_queue (t : QueueTarget) : (Tree.keys t.entries).Nodup := by
  refine List.Nodup.sublist ?_ (by decide : (["name"] ++ ["continueOnError"] ++ ["parallel"]
    ++ ["timeoutInMinutes"] ++ ["demands"] ++ ["matrix"]).Nodup)
  simp only [QueueTarget.entries, Tree.keys_append]
  have hname := (keys_filledEntry "name" t.name).append
    (keys_filledEntry "continueOnError" t.continueOnError)
  exact (((hname.append (keys_filledEntry _ _)).append (keys_filledEntry _ _)).append
    (keys_textsEntry _ _)).append (keys_matrixEntry _)

/-- **A queue is read back**, from its name alone where that is all. -/
theorem takes_readQueue {t : QueueTarget} (h : t.Sound) : Takes readQueue t.toTree.events t := by
  have hmapping : Takes readQueue t.toMapping.events t := by
    obtain ⟨given, hentries⟩ := entries_queue h
    have htake := (takes_mappingOf (nodup_queue t) hentries).map Prod.fst
    rw [Tree.ofEntries_of_nodup (nodup_queue t)] at htake
    rw [QueueTarget.toMapping, ← QueueTarget.entries, Tree.ofEntries_of_nodup (nodup_queue t)]
    exact takes_scalarComes_bind htake
  rw [QueueTarget.toTree]
  split
  · next name hname =>
    split
    · next ht =>
      have hne : name ≠ "" := fun heq => h.name (heq ▸ hname)
      rw [ht]
      have htake := (takes_nonEmpty hne).map fun s => ({ name := some s } : QueueTarget)
      exact takes_scalarComes_bind htake
    · exact hmapping
  · exact hmapping

/-! ### Deployment groups -/

/-- What holds of every deployment group that has been read. -/
structure DeploymentTarget.Sound (t : DeploymentTarget) : Prop where
  group : t.group ≠ some ""
  continueOnError : t.continueOnError ≠ some ""
  healthOption : t.healthOption ≠ some ""
  percentage : t.percentage ≠ some ""
  tags : ∀ s ∈ t.tags, s ≠ ""
  timeoutInMinutes : t.timeoutInMinutes ≠ some ""

theorem DeploymentTarget.yields_property {t : DeploymentTarget} (h : t.Sound) :
    Yields t.property Sound := by
  refine yields_bind_of_forall fun key => ?_
  split
  · exact yields_nonEmpty.bind fun s hs => yields_pure { h with group := some_ne_some_empty hs }
  · exact yields_nonEmpty.bind fun s hs =>
      yields_pure { h with continueOnError := some_ne_some_empty hs }
  · exact yields_nonEmpty.bind fun s hs =>
      yields_pure { h with healthOption := some_ne_some_empty hs }
  · exact yields_nonEmpty.bind fun s hs =>
      yields_pure { h with percentage := some_ne_some_empty hs }
  · exact yields_readTexts.bind fun items hitems => yields_pure { h with tags := hitems }
  · exact yields_nonEmpty.bind fun s hs =>
      yields_pure { h with timeoutInMinutes := some_ne_some_empty hs }
  · exact yields_failAt _ _ _

theorem yields_readDeployment : Yields readDeployment DeploymentTarget.Sound := by
  have hempty : ∀ group, group ≠ some "" → DeploymentTarget.Sound { group := group } :=
    fun group hgroup => ⟨hgroup, nofun, nofun, nofun, nofun, nofun⟩
  refine yields_bind_of_forall fun single => ?_
  split
  · exact yields_nonEmpty.bind fun s hs => yields_pure (hempty _ (some_ne_some_empty hs))
  · exact yields_mappingOf (hempty none nofun) fun t h => t.yields_property h

/-- The entries of a deployment group. -/
def DeploymentTarget.entries (t : DeploymentTarget) : List (String × Tree) :=
  filledEntry "group" t.group ++ filledEntry "continueOnError" t.continueOnError
    ++ filledEntry "healthOption" t.healthOption ++ filledEntry "percentage" t.percentage
    ++ filledEntry "timeoutInMinutes" t.timeoutInMinutes ++ textsEntry "tags" t.tags

theorem entries_deployment {t : DeploymentTarget} (h : t.Sound) :
    Entries DeploymentTarget.property {} t.entries t := by
  obtain ⟨group, continueOnError, healthOption, percentage, tags, timeout⟩ := t
  let t₁ : DeploymentTarget := { group }
  let t₂ : DeploymentTarget := { t₁ with continueOnError }
  let t₃ : DeploymentTarget := { t₂ with healthOption }
  let t₄ : DeploymentTarget := { t₃ with percentage }
  let t₅ : DeploymentTarget := { t₄ with timeoutInMinutes := timeout }
  have hgroup : Entries DeploymentTarget.property {} (filledEntry "group" group) t₁ :=
    entries_nonEmpty_filled (fun v => ({ group := v } : DeploymentTarget)) h.group
      fun key hkey => by simp only [hkey]
  have hcontinue : Entries DeploymentTarget.property t₁
      (filledEntry "continueOnError" continueOnError) t₂ :=
    entries_nonEmpty_filled (fun v => { t₁ with continueOnError := v }) h.continueOnError
      fun key hkey => by simp only [hkey]
  have hhealth : Entries DeploymentTarget.property t₂
      (filledEntry "healthOption" healthOption) t₃ :=
    entries_nonEmpty_filled (fun v => { t₂ with healthOption := v }) h.healthOption
      fun key hkey => by simp only [hkey]
  have hpercentage : Entries DeploymentTarget.property t₃
      (filledEntry "percentage" percentage) t₄ :=
    entries_nonEmpty_filled (fun v => { t₃ with percentage := v }) h.percentage
      fun key hkey => by simp only [hkey]
  have htimeout : Entries DeploymentTarget.property t₄
      (filledEntry "timeoutInMinutes" timeout) t₅ :=
    entries_nonEmpty_filled (fun v => { t₄ with timeoutInMinutes := v }) h.timeoutInMinutes
      fun key hkey => by simp only [hkey]
  have htags : Entries DeploymentTarget.property t₅ (textsEntry "tags" tags) { t₅ with tags } :=
    entries_textsEntry (fun v => { t₅ with tags := v }) h.tags
      fun key hkey => by simp only [hkey]
  exact ((((hgroup.append hcontinue).append hhealth).append hpercentage).append htimeout).append
    htags

theorem nodup_deployment (t : DeploymentTarget) : (Tree.keys t.entries).Nodup := by
  refine List.Nodup.sublist ?_ (by decide : (["group"] ++ ["continueOnError"] ++ ["healthOption"]
    ++ ["percentage"] ++ ["timeoutInMinutes"] ++ ["tags"]).Nodup)
  simp only [DeploymentTarget.entries, Tree.keys_append]
  have hgroup := (keys_filledEntry "group" t.group).append
    (keys_filledEntry "continueOnError" t.continueOnError)
  exact (((hgroup.append (keys_filledEntry _ _)).append (keys_filledEntry _ _)).append
    (keys_filledEntry _ _)).append (keys_textsEntry _ _)

/-- **A deployment group is read back**, from its name alone where that is all. -/
theorem takes_readDeployment {t : DeploymentTarget} (h : t.Sound) :
    Takes readDeployment t.toTree.events t := by
  have hmapping : Takes readDeployment t.toMapping.events t := by
    have htake := takes_mappingOf (nodup_deployment t) (entries_deployment h)
    rw [Tree.ofEntries_of_nodup (nodup_deployment t)] at htake
    rw [DeploymentTarget.toMapping, ← DeploymentTarget.entries,
      Tree.ofEntries_of_nodup (nodup_deployment t)]
    exact takes_scalarComes_bind htake
  rw [DeploymentTarget.toTree]
  split
  · next group hgroup =>
    split
    · next ht =>
      have hne : group ≠ "" := fun heq => h.group (heq ▸ hgroup)
      rw [ht]
      have htake := (takes_nonEmpty hne).map fun s => ({ group := some s } : DeploymentTarget)
      exact takes_scalarComes_bind htake
    · exact hmapping
  · exact hmapping

/-! ### The server -/

/-- What holds of every server target that has been read. -/
structure ServerTarget.Sound (t : ServerTarget) : Prop where
  continueOnError : t.continueOnError ≠ some ""
  matrix : SoundMatrix t.matrix
  parallel : t.parallel ≠ some ""
  timeoutInMinutes : t.timeoutInMinutes ≠ some ""

theorem ServerTarget.sound_empty : ServerTarget.Sound {} := ⟨nofun, soundMatrix_nil, nofun, nofun⟩

theorem ServerTarget.yields_property {t : ServerTarget} (h : t.Sound) :
    Yields t.property Sound := by
  refine yields_bind_of_forall fun key => ?_
  split
  · exact yields_nonEmpty.bind fun s hs =>
      yields_pure { h with continueOnError := some_ne_some_empty hs }
  · exact yields_readMatrix.bind fun m hm => yields_pure { h with matrix := hm }
  · exact yields_nonEmpty.bind fun s hs =>
      yields_pure { h with parallel := some_ne_some_empty hs }
  · exact yields_nonEmpty.bind fun s hs =>
      yields_pure { h with timeoutInMinutes := some_ne_some_empty hs }
  · exact yields_failAt _ _ _

theorem yields_readServer : Yields readServer fun target => ∀ t ∈ target, t.Sound := by
  refine yields_bind_of_forall fun single => ?_
  split
  · refine yields_bind_of_forall fun given => yields_pure ?_
    split
    · rintro t ⟨⟩
      exact ServerTarget.sound_empty
    · nofun
  · refine Yields.bind (P := ServerTarget.Sound) ?_ fun t ht => yields_pure ?_
    · exact yields_mappingOf ServerTarget.sound_empty fun t h => t.yields_property h
    · rintro t' ⟨⟩
      exact ht

/-- The entries of a server target. -/
def ServerTarget.entries (t : ServerTarget) : List (String × Tree) :=
  filledEntry "continueOnError" t.continueOnError ++ filledEntry "parallel" t.parallel
    ++ filledEntry "timeoutInMinutes" t.timeoutInMinutes ++ matrixEntry t.matrix

theorem entries_server {t : ServerTarget} (h : t.Sound) :
    Entries ServerTarget.property {} t.entries t := by
  obtain ⟨continueOnError, matrix, parallel, timeout⟩ := t
  let t₁ : ServerTarget := { continueOnError }
  let t₂ : ServerTarget := { t₁ with parallel }
  let t₃ : ServerTarget := { t₂ with timeoutInMinutes := timeout }
  have hcontinue : Entries ServerTarget.property {}
      (filledEntry "continueOnError" continueOnError) t₁ :=
    entries_nonEmpty_filled (fun v => ({ continueOnError := v } : ServerTarget)) h.continueOnError
      fun key hkey => by simp only [hkey]
  have hparallel : Entries ServerTarget.property t₁ (filledEntry "parallel" parallel) t₂ :=
    entries_nonEmpty_filled (fun v => { t₁ with parallel := v }) h.parallel
      fun key hkey => by simp only [hkey]
  have htimeout : Entries ServerTarget.property t₂ (filledEntry "timeoutInMinutes" timeout) t₃ :=
    entries_nonEmpty_filled (fun v => { t₂ with timeoutInMinutes := v }) h.timeoutInMinutes
      fun key hkey => by simp only [hkey]
  have hmatrix : Entries ServerTarget.property t₃ (matrixEntry matrix) { t₃ with matrix } := by
    refine entries_matrixEntry (fun v => { t₃ with matrix := v }) h.matrix ?_ (fun _ => rfl) ?_
    · rintro rfl
      rfl
    · exact fun key hkey _ => by simp only [hkey]
  exact ((hcontinue.append hparallel).append htimeout).append hmatrix

theorem nodup_server (t : ServerTarget) : (Tree.keys t.entries).Nodup := by
  refine List.Nodup.sublist ?_ (by decide : (["continueOnError"] ++ ["parallel"]
    ++ ["timeoutInMinutes"] ++ ["matrix"]).Nodup)
  simp only [ServerTarget.entries, Tree.keys_append]
  have hcontinue := (keys_filledEntry "continueOnError" t.continueOnError).append
    (keys_filledEntry "parallel" t.parallel)
  exact (hcontinue.append (keys_filledEntry _ _)).append (keys_matrixEntry _)

/-- **A server target is read back**, from a truth value where nothing is said of it. -/
theorem takes_readServer {t : ServerTarget} (h : t.Sound) :
    Takes readServer t.toTree.events (some t) := by
  rw [ServerTarget.toTree]
  split
  · next ht =>
    rw [ht]
    have htake :=
      (takes_boolean true).map fun given => if given then some ({} : ServerTarget) else none
    exact takes_scalarComes_bind htake
  · have htake := (takes_mappingOf (nodup_server t) (entries_server h)).map some
    rw [Tree.ofEntries_of_nodup (nodup_server t)] at htake
    rw [← ServerTarget.entries, Tree.ofEntries_of_nodup (nodup_server t)]
    exact takes_scalarComes_bind htake

/-! ### Targets -/

/-- What holds of every target that has been read. -/
def Target.Sound : Target → Prop
  | .queue t => t.Sound
  | .deployment t => t.Sound
  | .server t => t.Sound

end PipelineExpansion.BuildProcess
