import PipelineExpansion.Proofs.Template.Metering

/-!
# Sequences and mappings piece by piece

The items of a sequence are evaluated one after another, and all that goes from one to the next is where
a chain of conditions stands. Directives other than `elseif` and `else` do not look at it, so evaluation
may be cut wherever the next item is neither (`evalItems_append`), and so it is with the entries of a
mapping (`evalEntries_append`). Both are equations between steps: results, failures and charges agree.

## Main results

* `evalItems_append`, `evalEntries_append`: the pieces are evaluated one after the other.
* `evalToken_append`: a sequence in two pieces succeeds exactly if both succeed as sequences; its items,
  events and bytes are theirs together.
-/

namespace PipelineExpansion.Template

variable {l : Limits} {names : Token} {depth : Nat} {key : Key}

/-! ### Where a chain does not go on -/

/-- A directive that goes on with a chain, and is refused outside of any. -/
def Directive.Continues : Directive → Prop
  | elseWhen _ | otherwise => True
  | _ => False

/-- The first of some items, if there is one, does not go on with a chain. -/
def BeginsAnew (items : List Token) : Prop :=
  ∀ item ∈ items.head?, ∀ key directive,
    itemDirective? item = some (key, directive) → ¬ directive.Continues

/-- The first of some entries, if there is one, does not go on with a chain. -/
def EntriesBeginAnew (entries : List Entry) : Prop :=
  ∀ e ∈ entries.head?, ∀ directive,
    Directive.ofKey? e.1.name = some directive → ¬ directive.Continues

theorem selectBranch_of_not_continues {directive : Directive} (h : ¬ directive.Continues)
    (chain : Chain) :
    selectBranch names key directive chain = selectBranch names key directive none := by
  cases directive with
  | elseWhen | otherwise => exact absurd trivial h
  | when | each | insert => rfl

/-- Where a chain stands does not matter to items that do not go on with it. -/
theorem evalItems_of_beginsAnew {items : List Token} (h : BeginsAnew items) (chain : Chain) :
    evalItems l names depth chain items = evalItems l names depth none items := by
  cases items with
  | nil => rfl
  | cons item rest =>
      rw [evalItems, evalItems]
      split
      · rfl
      · next key directive hdirective =>
        rw [selectBranch_of_not_continues (h item rfl key directive hdirective) chain]

theorem evalEntries_of_beginAnew {entries : List Entry} (h : EntriesBeginAnew entries)
    (chain : Chain) (done : List Entry) :
    evalEntries l names depth chain done entries = evalEntries l names depth none done entries := by
  cases entries with
  | nil => rfl
  | cons e rest =>
      obtain ⟨key, value⟩ := e
      rw [evalEntries, evalEntries]
      split
      · rfl
      · next directive hdirective =>
        rw [selectBranch_of_not_continues (h (key, value) rfl directive hdirective) chain]

/-! ### One piece after the other -/

/-- **Items are evaluated piece by piece**, wherever the chain stands at first. -/
theorem evalItems_append {a b : List Token} (hb : BeginsAnew b) (chain : Chain) :
    evalItems l names depth chain (a ++ b) = do
      let own ← evalItems l names depth chain a
      let more ← evalItems l names depth none b
      return own ++ more := by
  induction a generalizing chain with
  | nil => simp [evalItems, evalItems_of_beginsAnew hb chain]
  | cons item rest ih =>
      rw [List.cons_append, evalItems, evalItems]
      split
      · simp only [ih, bind_assoc, pure_bind, List.append_assoc]
      · simp only [bind_assoc]
        refine congrArg _ (funext fun branch => ?_)
        cases branch with
        | take next => simp only [ih, bind_assoc, pure_bind, List.append_assoc]
        | skip next => exact ih next
        | loop name collection => simp only [ih, bind_assoc, pure_bind, List.append_assoc]

/-- **Entries are evaluated piece by piece.** -/
theorem evalEntries_append {a b : List Entry} (hb : EntriesBeginAnew b) (chain : Chain)
    (done : List Entry) :
    evalEntries l names depth chain done (a ++ b) = (do
      let done ← evalEntries l names depth chain done a
      evalEntries l names depth none done b) := by
  induction a generalizing chain done with
  | nil => simp [evalEntries, evalEntries_of_beginAnew hb chain]
  | cons e rest ih =>
      obtain ⟨key, value⟩ := e
      rw [List.cons_append, evalEntries, evalEntries]
      split
      · simp only [ih, bind_assoc]
      · simp only [bind_assoc]
        refine congrArg _ (funext fun branch => ?_)
        cases branch with
        | take next => simp only [ih, bind_assoc]
        | skip next => exact ih next done
        | loop name collection => simp only [ih, bind_assoc]

/-! ### Sequences -/

/-- Evaluates items as a sequence, after some usage. -/
def runSequence (l : Limits) (names : Token) (depth : Nat) (o : Origin) (items : List Token)
    (u : Usage) : Except Diagnostic Token × Usage :=
  (evalToken l names depth (.sequence o items)).run.run u

/-- A sequence that no limit stops is entered, and comes to what its items come to. -/
theorem runSequence_eq {o : Origin} {items : List Token} {u : Usage}
    (h : ¬ IsLimited (runSequence l names depth o items u).1) :
    ¬ IsLimited ((evalItems l names depth none items).run.run (u.plus 1 0)).1 ∧
      runSequence l names depth o items u =
        ((((evalItems l names depth none items).run.run (u.plus 1 0)).1.map (.sequence o)),
          ((evalItems l names depth none items).run.run (u.plus 1 0)).2) := by
  rw [runSequence, evalToken] at h ⊢
  have henter := run_enter_of_not_isLimited (not_isLimited_of_bind h)
  rw [run_bind_ok henter] at h ⊢
  exact ⟨not_isLimited_of_bind h, run_map _ _ _⟩

/-- **Evaluating a sequence is evaluating its pieces.** Where no limit stops any of the three, a
sequence in two pieces succeeds exactly if both succeed as sequences; its items are theirs one after the
other, and it is charged what both are charged, less the one event for a sequence around them. -/
theorem evalToken_append {a b : List Token} (hanew : BeginsAnew b) {o oa ob : Origin} {u ua ub : Usage}
    (hab : ¬ IsLimited (runSequence l names depth o (a ++ b) u).1)
    (ha : ¬ IsLimited (runSequence l names depth oa a ua).1)
    (hb : ¬ IsLimited (runSequence l names depth ob b ub).1) :
    ((∃ t u', runSequence l names depth o (a ++ b) u = (.ok t, u')) ↔
        (∃ t u', runSequence l names depth oa a ua = (.ok t, u')) ∧
          ∃ t u', runSequence l names depth ob b ub = (.ok t, u')) ∧
      ∀ t ta tb u' ua' ub', runSequence l names depth o (a ++ b) u = (.ok t, u') →
        runSequence l names depth oa a ua = (.ok ta, ua') →
        runSequence l names depth ob b ub = (.ok tb, ub') →
          ∃ xs ys events events' bytes bytes', ta = .sequence oa xs ∧ tb = .sequence ob ys ∧
            t = .sequence o (xs ++ ys) ∧ ua' = ua.plus (1 + events) bytes ∧
            ub' = ub.plus (1 + events') bytes' ∧
            u' = u.plus (1 + (events + events')) (bytes + bytes') := by
  obtain ⟨hab, hrun⟩ := runSequence_eq hab
  obtain ⟨ha, hruna⟩ := runSequence_eq ha
  obtain ⟨hb, hrunb⟩ := runSequence_eq hb
  rw [evalItems_append hanew] at hab hrun
  rw [hrun, hruna, hrunb]
  have hmetered (items : List Token) := (composes_metered l).evalItems names depth none items
  -- Both pieces come to results of their own, for charges of their own.
  obtain ⟨rx, events, bytes, -, hx⟩ := (hmetered a).exists_run ha
  have hxa := hx _ ha
  have hxu := hx _ (not_isLimited_of_bind hab)
  cases rx with
  | error d =>
      rw [hxa, run_bind_error hxu]
      refine ⟨⟨?_, ?_⟩, ?_⟩
      · rintro ⟨t, u', ⟨⟩⟩
      · rintro ⟨⟨t, u', ⟨⟩⟩, -⟩
      · rintro t ta tb u' ua' ub' ⟨⟩
  | ok xs =>
      rw [run_bind_ok hxu] at hab ⊢
      obtain ⟨ry, events', bytes', -, hy⟩ := (hmetered b).exists_run hb
      have hyb := hy _ hb
      have hyu := hy _ (not_isLimited_of_bind hab)
      rw [hxa, hyb, run_map, hyu]
      cases ry with
      | error d =>
          refine ⟨⟨?_, ?_⟩, ?_⟩
          · rintro ⟨t, u', ⟨⟩⟩
          · rintro ⟨-, t, u', ⟨⟩⟩
          · rintro t ta tb u' ua' ub' ⟨⟩
      | ok ys =>
          refine ⟨⟨fun _ => ⟨⟨_, _, rfl⟩, _, _, rfl⟩, fun _ => ⟨_, _, rfl⟩⟩, ?_⟩
          rintro t ta tb u' ua' ub' ⟨⟩ ⟨⟩ ⟨⟩
          refine ⟨xs, ys, events, events', bytes, bytes', rfl, rfl, rfl, ?_, ?_, ?_⟩
          · rw [Usage.plus_plus, Nat.zero_add]
          · rw [Usage.plus_plus, Nat.zero_add]
          · rw [Usage.plus_plus, Usage.plus_plus, Nat.zero_add]

/-- Named values with a sequence of two. -/
def twoSteps : Token := .ofPairs [("steps", .ofItems [.ofText "one", .ofText "two"])]

/-- Items that end inside a chain whose condition is false. -/
def openEnded : List Token :=
  [.ofText "first", .ofPairs [("$\x7b\x7b if false \x7d\x7d", .ofText "never")]]

/-- Items of which the first is spliced. -/
def splicedEnd : List Token := [.ofText "$\x7b\x7b steps \x7d\x7d", .ofText "last"]

theorem evalToken_append_spliced :
    BeginsAnew splicedEnd ∧
      ∃ t u', runSequence {} twoSteps 1 .unknown (openEnded ++ splicedEnd) {} = (.ok t, u') ∧
        u'.events = 4 ∧ t.items?.map (·.map Token.text?) =
          some [some "first", some "one", some "two", some "last"] := by
  have hanew : BeginsAnew splicedEnd := by
    rintro _ ⟨⟩ key directive ⟨⟩
  have hwhole : (runSequence {} twoSteps 1 .unknown (openEnded ++ splicedEnd) {}).1.toOption.isSome := by
    decide +kernel
  have hfirst : (runSequence {} twoSteps 1 .unknown openEnded {}).1.toOption.isSome := by
    decide +kernel
  have hsecond : (runSequence {} twoSteps 1 .unknown splicedEnd {}).1.toOption.isSome := by
    decide +kernel
  obtain ⟨hiff, -⟩ := evalToken_append hanew (not_isLimited_of_isSome hwhole)
    (not_isLimited_of_isSome hfirst) (not_isLimited_of_isSome hsecond)
  obtain ⟨ta, ha⟩ := exists_run_of_isSome hfirst
  obtain ⟨tb, hb⟩ := exists_run_of_isSome hsecond
  obtain ⟨t, u', hrun⟩ := hiff.mpr ⟨⟨ta, _, ha⟩, tb, _, hb⟩
  have hresult : ((runSequence {} twoSteps 1 .unknown (openEnded ++ splicedEnd) {}).1.toOption.bind
      Token.items?).map (·.map Token.text?) =
        some [some "first", some "one", some "two", some "last"] ∧
      (runSequence {} twoSteps 1 .unknown (openEnded ++ splicedEnd) {}).2.events = 4 := by
    decide +kernel
  rw [hrun] at hresult
  exact ⟨hanew, t, u', hrun, hresult.2, hresult.1⟩

end PipelineExpansion.Template
