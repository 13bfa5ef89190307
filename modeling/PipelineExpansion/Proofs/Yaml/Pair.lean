import PipelineExpansion.Proofs.Yaml.Node

/-!
# Mappings are read pair by pair

The events of a mapping are its start, the events of its pairs, and its end; those of a pair are a
node for the key and a node for the value. A reader that builds a value from the entries of a
mapping, one pair at a time, reads the mapping as what its step comes to over the pairs (`Steps`),
and as nothing else: where the step fails at a pair, the mapping is refused.

## Main results

* `StaysIn.readsAs_bind_iff`: what comes of a reader of one node and then of others.
* `readsAs_mappingOf_iff`: what a mapping is read as.
-/

namespace PipelineExpansion.Yaml

variable {α β σ : Type} {r : Reader α} {f : α → Reader β} {node more : List Spanned}

/-! ### What a node is read as -/

/-- Off some events, whatever is behind them, a reader takes exactly these and returns a value. -/
def ReadsAs (r : Reader α) (node : List Spanned) (a : α) : Prop :=
  ∀ rest last, r.run.run ⟨node ++ rest, last⟩ = (.ok a, ⟨rest, last⟩)

theorem readsAs_pure_iff {a b : α} : ReadsAs (pure a) [] b ↔ a = b := by
  refine ⟨fun h => ?_, fun h _ _ => h ▸ rfl⟩
  exact Except.ok.inj (congrArg Prod.fst (h [] none))

theorem ReadsAs.bind {a : α} {b : β} (h : ReadsAs r node a) (hf : ReadsAs (f a) more b) :
    ReadsAs (r >>= f) (node ++ more) b := by
  intro rest last
  rw [run_bind, List.append_assoc, h]
  exact hf rest last

/-- What comes of a reader that stays in a node is what the node is read as. -/
theorem StaysIn.run_eq_ok_iff (h : StaysIn r node) {rest : List Spanned} {last : Option Span}
    {a : α} {c : Cursor} :
    r.run.run ⟨node ++ rest, last⟩ = (.ok a, c) ↔ c = ⟨rest, last⟩ ∧ ReadsAs r node a :=
  ⟨h.run_eq_ok, fun ⟨hc, hreads⟩ => hc ▸ hreads rest last⟩

/-- A reader that goes on behind a node reads the node first. -/
theorem StaysIn.readsAs_bind_iff (h : StaysIn r node) {b : β} :
    ReadsAs (r >>= f) (node ++ more) b ↔ ∃ a, ReadsAs r node a ∧ ReadsAs (f a) more b := by
  refine ⟨fun hreads => ?_, fun ⟨a, ha, hb⟩ => ha.bind hb⟩
  have hrun := hreads [] none
  rw [List.append_assoc, run_bind_eq_ok] at hrun
  obtain ⟨a, c, ha, -⟩ := hrun
  obtain ⟨-, ha⟩ := h.run_eq_ok_iff.mp ha
  refine ⟨a, ha, fun rest last => ?_⟩
  rw [← hreads rest last, run_bind, List.append_assoc, ha]

theorem StaysIn.readsAs_map_iff (h : StaysIn r node) {g : α → β} {b : β} :
    ReadsAs (r >>= fun a => pure (g a)) node b ↔ ∃ a, ReadsAs r node a ∧ g a = b := by
  have hbind : ReadsAs (r >>= fun a => pure (g a)) (node ++ []) b ↔
      ∃ a, ReadsAs r node a ∧ ReadsAs (pure (g a)) [] b := h.readsAs_bind_iff
  rw [List.append_nil] at hbind
  exact hbind.trans (exists_congr fun a => and_congr_right fun _ => readsAs_pure_iff)

/-- What a node is read as has what the reader gives it. -/
theorem ReadsAs.of_yields {P : α → Prop} {a : α} (h : ReadsAs r node a) (hr : Yields r P) : P a :=
  hr _ a _ (h [] none)

/-- A node is read as a scalar if it is one. -/
theorem readsAs_scalar_iff (h : IsNode node) {key : Scalar} :
    ReadsAs Reader.scalar node key ↔ node = [⟨.scalar key.text key.plain, key.span⟩] := by
  refine ⟨fun hreads => ?_, fun hnode rest last => hnode ▸ run_scalar _ _ _ rest last⟩
  have hrun := hreads [] none
  cases h with
  | scalar text plain span =>
      rw [List.singleton_append, run_scalar] at hrun
      obtain ⟨hkey, -⟩ := Prod.mk.inj hrun
      rw [← Except.ok.inj hkey]
  | @collection first last content hends hcontent =>
      -- A collection begins with its start, which is no scalar.
      obtain ⟨event, span⟩ := first
      cases event with
      | scalar text plain =>
          revert hends
          generalize last.event = stop
          exact nofun
      | mappingStart | mappingEnd | sequenceStart | sequenceEnd => cases hrun

/-! ### Pairs -/

/-- The events of a key and those of its value. -/
structure Pair where
  key : List Spanned
  value : List Spanned

/-- The key and the value are nodes. -/
structure Pair.IsPair (e : Pair) : Prop where
  key : IsNode e.key
  value : IsNode e.value

/-- The events of a pair. -/
def Pair.events (e : Pair) : List Spanned := e.key ++ e.value

/-- The events of a mapping. -/
def mappingEvents (start stop : Span) (pairs : List Pair) : List Spanned :=
  ⟨.mappingStart, start⟩ :: (pairs.flatMap Pair.events ++ [⟨.mappingEnd, stop⟩])

variable {e : Pair} {pairs : List Pair} {start stop : Span}

theorem balanced_pairs (h : ∀ e ∈ pairs, e.IsPair) : Balanced (pairs.flatMap Pair.events) := by
  induction pairs with
  | nil => exact .nil
  | cons e rest ih =>
      obtain ⟨he, hrest⟩ := List.forall_mem_cons.mp h
      rw [List.flatMap_cons, Pair.events, List.append_assoc]
      exact .cons he.key (.cons he.value (ih hrest))

/-- A mapping is a node. -/
theorem isNode_mappingEvents (h : ∀ e ∈ pairs, e.IsPair) :
    IsNode (mappingEvents start stop pairs) := .collection .mapping (balanced_pairs h)

/-- What reads what is left of a mapping stays in it. -/
theorem Closes.staysIn (hr : Closes .mappingEnd r) (h : ∀ e ∈ pairs, e.IsPair) :
    StaysIn r (pairs.flatMap Pair.events ++ [⟨.mappingEnd, stop⟩]) :=
  hr _ ⟨_, _, balanced_pairs h, rfl, rfl⟩

/-- A reader of two nodes stays in a pair. -/
theorem Pair.IsPair.staysIn (h : e.IsPair) (hr : ReadsNode r) (hf : ∀ a, ReadsNode (f a)) :
    StaysIn (r >>= f) e.events := by
  refine ((hr.node h.key).append e.value).bind ?_
  rintro a _ rfl
  exact (hf a).node h.value

/-- What a step comes to over some pairs, one after the other. -/
inductive Steps (step : σ → Reader σ) : σ → List Pair → σ → Prop
  | nil (a : σ) : Steps step a [] a
  | cons {a b c : σ} {e : Pair} {rest : List Pair} (h : ReadsAs (step a) e.events b)
      (hrest : Steps step b rest c) : Steps step a (e :: rest) c

theorem steps_nil_iff {step : σ → Reader σ} {a b : σ} : Steps step a [] b ↔ a = b :=
  ⟨fun h => by cases h; rfl, fun h => h ▸ .nil a⟩

theorem steps_cons_iff {step : σ → Reader σ} {a c : σ} :
    Steps step a (e :: pairs) c ↔ ∃ b, ReadsAs (step a) e.events b ∧ Steps step b pairs c := by
  constructor
  · rintro (_ | ⟨h, hrest⟩)
    exact ⟨_, h, hrest⟩
  · rintro ⟨b, h, hrest⟩
    exact .cons h hrest

theorem steps_append_iff {step : σ → Reader σ} {a c : σ} {more : List Pair} :
    Steps step a (pairs ++ more) c ↔ ∃ b, Steps step a pairs b ∧ Steps step b more c := by
  induction pairs generalizing a with
  | nil => simp [steps_nil_iff]
  | cons e rest ih =>
      simp only [List.cons_append, steps_cons_iff, ih]
      exact ⟨fun ⟨b, hb, d, hd, hc⟩ => ⟨d, ⟨b, hb, hd⟩, hc⟩,
        fun ⟨d, ⟨b, hb, hd⟩, hc⟩ => ⟨b, hb, d, hd, hc⟩⟩

section Loop

variable {step : σ → Reader σ}

/-- A loop inside a mapping returns what its step comes to over the pairs that are left. -/
theorem run_upTo_pairs (hpairs : ∀ e ∈ pairs, e.IsPair)
    (hstep : ∀ a, ∀ e ∈ pairs, StaysIn (step a) e.events) {a b : σ} {n : Nat}
    (hn : (pairs.flatMap Pair.events).length < n) {rest : List Spanned} {last : Option Span}
    {c : Cursor} :
    (Reader.upTo .mappingEnd step n a).run.run
        ⟨pairs.flatMap Pair.events ++ (⟨.mappingEnd, stop⟩ :: rest), last⟩ = (.ok b, c) ↔
      c = ⟨rest, last⟩ ∧ Steps step a pairs b := by
  -- The induction is on the pairs; each takes a turn of the loop, and an event at least.
  induction pairs generalizing a n with
  | nil =>
      obtain ⟨n, rfl⟩ : ∃ m, n = m + 1 := ⟨n - 1, by omega⟩
      have hstop : (⟨.mappingEnd, stop⟩ : Spanned).event = .mappingEnd := rfl
      rw [List.flatMap_nil, List.nil_append, Reader.upTo, run_bind, run_allow_closing hstop,
        steps_nil_iff]
      constructor
      · intro hrun
        cases hrun
        exact ⟨rfl, rfl⟩
      · rintro ⟨rfl, rfl⟩
        rfl
  | cons e pairs ih =>
      obtain ⟨he, hpairs⟩ := List.forall_mem_cons.mp hpairs
      obtain ⟨first, others, hkey, hfirst⟩ := he.key.head_ne .mapping
      rw [List.flatMap_cons, Pair.events, hkey] at hn
      obtain ⟨n, rfl⟩ : ∃ m, n = m + 1 := ⟨n - 1, by omega⟩
      have hleft : (pairs.flatMap Pair.events).length < n := by
        simp only [List.length_append, List.length_cons] at hn
        omega
      have hturn : (Reader.upTo .mappingEnd step (n + 1) a).run.run
            ⟨e.events ++ (pairs.flatMap Pair.events ++ (⟨.mappingEnd, stop⟩ :: rest)), last⟩
          = (step a >>= Reader.upTo .mappingEnd step n).run.run
            ⟨e.events ++ (pairs.flatMap Pair.events ++ (⟨.mappingEnd, stop⟩ :: rest)), last⟩ := by
        rw [Reader.upTo, run_bind, Pair.events, hkey, List.cons_append, List.cons_append,
          run_allow_of_ne hfirst]
        rfl
      have hstays := hstep a e List.mem_cons_self
      have hsteps := fun a e he => hstep a e (List.mem_cons_of_mem _ he)
      rw [List.flatMap_cons, List.append_assoc, hturn, run_bind_eq_ok, steps_cons_iff]
      constructor
      · rintro ⟨s, c', hs, hrun⟩
        obtain ⟨rfl, hreads⟩ := hstays.run_eq_ok_iff.mp hs
        obtain ⟨hc, hrun⟩ := (ih hpairs hsteps hleft).mp hrun
        exact ⟨hc, s, hreads, hrun⟩
      · rintro ⟨hc, s, hs, hrun⟩
        exact ⟨s, _, hs _ _, (ih hpairs hsteps hleft).mpr ⟨hc, hrun⟩⟩

/-- What is left of a mapping is read as what the step comes to over the pairs that are left. -/
theorem readsAs_untilEnd_iff (hpairs : ∀ e ∈ pairs, e.IsPair)
    (hstep : ∀ a, ∀ e ∈ pairs, StaysIn (step a) e.events) {a b : σ} :
    ReadsAs (Reader.untilEnd .mappingEnd a step)
        (pairs.flatMap Pair.events ++ [⟨.mappingEnd, stop⟩]) b ↔
      Steps step a pairs b := by
  have hrun (rest : List Spanned) (last : Option Span) :
      (Reader.untilEnd .mappingEnd a step).run.run
          ⟨pairs.flatMap Pair.events ++ [⟨.mappingEnd, stop⟩] ++ rest, last⟩
          = (.ok b, ⟨rest, last⟩) ↔ Steps step a pairs b := by
    rw [List.append_assoc, List.singleton_append]
    have hlength : (pairs.flatMap Pair.events).length
        < (pairs.flatMap Pair.events ++ (⟨.mappingEnd, stop⟩ :: rest)).length + 1 := by
      rw [List.length_append]
      omega
    exact (run_upTo_pairs hpairs hstep hlength).trans (and_iff_right rfl)
  exact ⟨fun h => (hrun [] none).mp (h [] none), fun h rest last => (hrun rest last).mpr h⟩

/-- **What a mapping is read as** is what the step of its reader comes to over its pairs. -/
theorem readsAs_mappingOf_iff (hpairs : ∀ e ∈ pairs, e.IsPair)
    (hstep : ∀ a, ∀ e ∈ pairs, StaysIn (step a) e.events) {a b : σ} :
    ReadsAs (Reader.mappingOf a step) (mappingEvents start stop pairs) b ↔
      Steps step a pairs b := by
  have hrun (rest : List Spanned) (last : Option Span) :
      (Reader.mappingOf a step).run.run ⟨mappingEvents start stop pairs ++ rest, last⟩ =
        (Reader.untilEnd .mappingEnd a step).run.run
          ⟨pairs.flatMap Pair.events ++ [⟨.mappingEnd, stop⟩] ++ rest, last⟩ := by
    rw [mappingEvents, List.cons_append, Reader.mappingOf, run_bind, run_expect]
  have hbehind : ReadsAs (Reader.mappingOf a step) (mappingEvents start stop pairs) b ↔
      ReadsAs (Reader.untilEnd .mappingEnd a step)
        (pairs.flatMap Pair.events ++ [⟨.mappingEnd, stop⟩]) b :=
    forall_congr' fun rest => forall_congr' fun last => by rw [hrun]
  exact hbehind.trans (readsAs_untilEnd_iff hpairs hstep)

end Loop

end PipelineExpansion.Yaml
