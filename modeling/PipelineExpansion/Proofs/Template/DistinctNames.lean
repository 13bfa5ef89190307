import PipelineExpansion.Proofs.Outcome
import PipelineExpansion.Template.Evaluate

/-!
# Evaluated mappings have distinct names

A document may repeat a key, and a directive may insert one that is there already. Evaluation refuses
both: it adds entries to a mapping one by one, and each must be new (`ensures_addEntry`).

## Main results

* `distinctNames_of_evaluate`: no two entries of an evaluated mapping have one name.
-/

namespace PipelineExpansion.Template

variable {α β σ : Type} {P : α → Prop} {Q : β → Prop} {l : Limits} {names : Token} {u u' : Usage}

/-- What a charged step returns, if it returns anything, has a property. -/
def Affords (step : Charged α) (P : α → Prop) : Prop :=
  ∀ u a u', step.run.run u = (.ok a, u') → P a

theorem affords_pure {a : α} (h : P a) : Affords (pure a) P := by
  rintro u b u' ⟨⟩
  exact h

theorem affords_lift {x : Except Diagnostic α} (h : Ensures x P) :
    Affords (liftM x : Charged α) P := by
  intro u a u' hrun
  have hpair : (x, u) = (.ok a, u') := hrun
  exact h a (congrArg Prod.fst hpair)

/-- Steps before the last matter only where the last one needs what they return. -/
theorem Affords.bind {x : Charged α} {f : α → Charged β} (h : Affords x P)
    (h' : ∀ a, P a → Affords (f a) Q) : Affords (x >>= f) Q := by
  intro u b u' hrun
  obtain ⟨a, u₁, hx, hf⟩ := run_bind_eq_ok.mp hrun
  exact h' a (h u a u₁ hx) u₁ b u' hf

theorem Affords.map {x : Charged α} {f : α → β} (h : Affords x P) (h' : ∀ a, P a → Q (f a)) :
    Affords (x >>= fun a => pure (f a)) Q :=
  h.bind fun a ha => affords_pure (h' a ha)

theorem affords_bind_of_forall {x : Charged α} {f : α → Charged β} (h : ∀ a, Affords (f a) Q) :
    Affords (x >>= f) Q :=
  Affords.bind (P := fun _ => True) (fun _ _ _ _ => trivial) fun a _ => h a

theorem Affords.and {P' : α → Prop} {x : Charged α} (h : Affords x P) (h' : Affords x P') :
    Affords x fun a => P a ∧ P' a :=
  fun u a u' hrun => ⟨h u a u' hrun, h' u a u' hrun⟩

theorem affords_mapM {f : α → Charged β} {items : List α} (h : ∀ a ∈ items, Affords (f a) Q) :
    Affords (items.mapM f) fun bs => ∀ b ∈ bs, Q b := by
  induction items with
  | nil => exact affords_pure (List.forall_mem_nil _)
  | cons a rest ih =>
      obtain ⟨ha, hrest⟩ := List.forall_mem_cons.mp h
      rw [List.mapM_cons]
      refine ha.bind fun b hb => (ih hrest).bind fun bs hbs => ?_
      exact affords_pure (List.forall_mem_cons.mpr ⟨hb, hbs⟩)

theorem affords_foldlM {step : σ → α → Charged σ} {P : σ → Prop} {items : List α}
    (hstep : ∀ a ∈ items, ∀ s, P s → Affords (step s a) P) {s : σ} (h : P s) :
    Affords (items.foldlM step s) P := by
  induction items generalizing s with
  | nil => exact affords_pure h
  | cons a rest ih =>
      obtain ⟨ha, hrest⟩ := List.forall_mem_cons.mp hstep
      rw [List.foldlM_cons]
      exact (ha s h).bind fun s' hs' => ih hrest hs'

/-! ### Entries are added one by one -/

/-- No two entries have one name. -/
def DistinctNames (entries : List Entry) : Prop := (entries.map (·.1.name)).Nodup

instance (entries : List Entry) : Decidable (DistinctNames entries) :=
  inferInstanceAs (Decidable (entries.map (·.1.name)).Nodup)

theorem DistinctNames.append_singleton {entries : List Entry} {e : Entry}
    (h : DistinctNames entries) (hnew : ∀ present ∈ entries, present.1.name ≠ e.1.name) :
    DistinctNames (entries ++ [e]) := by
  rw [DistinctNames, List.map_append, List.map_singleton, List.nodup_append]
  refine ⟨h, List.pairwise_singleton _ _, fun name hname other hother => ?_⟩
  obtain ⟨present, hpresent, rfl⟩ := List.mem_map.mp hname
  rw [List.mem_singleton.mp hother]
  exact hnew present hpresent

theorem ensures_addEntry {entries : List Entry} (h : DistinctNames entries) (e : Entry) :
    Ensures (addEntry entries e) DistinctNames := by
  unfold addEntry
  split
  · exact ensures_error _ _
  · next hnew =>
    refine ensures_ok (h.append_singleton fun present hpresent hsame => ?_)
    exact hnew (List.any_eq_true.mpr ⟨present, hpresent, decide_eq_true hsame⟩)

theorem ensures_mergeBody {entries : List Entry} (h : DistinctNames entries) (key : Key)
    (body : Token) : Ensures (mergeBody key entries body) DistinctNames := by
  unfold mergeBody
  split
  · exact ensures_ok h
  · exact ensures_foldlM (fun _ e h => ensures_addEntry h e) h _
  · exact ensures_error _ _

theorem affords_evalEntries (depth : Nat) (entries : List Entry) {done : List Entry} (chain : Chain)
    (h : DistinctNames done) :
    Affords (evalEntries l names depth chain done entries) DistinctNames := by
  induction entries generalizing done chain with
  | nil =>
      unfold evalEntries
      exact affords_pure h
  | cons e rest ih =>
      obtain ⟨key, value⟩ := e
      unfold evalEntries
      split
      · refine affords_bind_of_forall fun key => affords_bind_of_forall fun value => ?_
        exact (affords_lift (ensures_addEntry h (key, value))).bind fun done hdone => ih _ hdone
      · refine affords_bind_of_forall fun branch => ?_
        split
        · refine affords_bind_of_forall fun body => ?_
          exact (affords_lift (ensures_mergeBody h key body)).bind fun done hdone => ih _ hdone
        · exact ih _ h
        · refine affords_bind_of_forall fun rounds => ?_
          refine (affords_foldlM (fun names _ done hdone => ?_) h).bind fun done hdone =>
            ih _ hdone
          exact affords_bind_of_forall fun body => affords_lift (ensures_mergeBody hdone key body)

/-- **No two entries of an evaluated mapping have one name.** -/
theorem distinctNames_of_evaluate {o o' : Origin} {entries entries' : List Entry}
    (hrun : (evaluate l (.mapping o entries) names).run.run u = (.ok (.mapping o' entries'), u')) :
    DistinctNames entries' := by
  rw [evaluate, evalToken] at hrun
  obtain ⟨_, u₁, -, hrun⟩ := run_bind_eq_ok.mp hrun
  obtain ⟨done, u₂, hentries, hpure⟩ := run_bind_eq_ok.mp hrun
  cases hpure
  have hnone : DistinctNames [] := List.nodup_nil
  exact affords_evalEntries _ entries none hnone _ _ _ hentries

end PipelineExpansion.Template
