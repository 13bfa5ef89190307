import PipelineExpansion.Proofs.Template.Concatenation

/-!
# Conditionals

A conditional is a chain of clauses: one under `if`, more under `elseif`, and possibly one under `else`.
In a sequence the clauses are items, in a mapping they are entries. It contributes what the body of its
first clause with a true condition contributes, and nothing behind that clause is looked at.

The loop over items and the loop over entries treat a chain alike, though they do different things with
a body. What both do is said by `Walks`, and the conditional is taken apart once, for any such loop.
What it comes to is decided by the conditions alone (`firstHolding`).

## Main results

* `Walks.conditional`: a loop takes a conditional for the clause that is decided for.
* `contributes_firstTrue`: in sequences and mappings, whatever stands around it, a conditional contributes
  what its first true branch does.
-/

namespace PipelineExpansion.Template

variable {σ β : Type} {l : Limits} {names : Token} {depth : Nat}

/-! ### Clauses -/

/-- A key with what stands under it, and where both are from where they are an item. -/
structure Arm where
  origin : Origin
  key : Key
  body : Token

/-- An arm as an item of a sequence. -/
def Arm.item (arm : Arm) : Token := .mapping arm.origin [(arm.key, arm.body)]

/-- An arm as an entry of a mapping. -/
def Arm.entry (arm : Arm) : Entry := (arm.key, arm.body)

/-- An arm under a condition. -/
structure Clause extends Arm where
  condition : String

/-- What the condition of a clause evaluates to. -/
def Clause.value (names : Token) (c : Clause) : Except Diagnostic Token :=
  evalExpression names c.key.origin.span c.condition

/-- The condition of a clause is true. -/
def Clause.Holds (names : Token) (c : Clause) : Prop :=
  ∃ value, c.value names = .ok value ∧ value.truthy = true

/-- The condition of a clause is false. -/
def Clause.Fails (names : Token) (c : Clause) : Prop :=
  ∃ value, c.value names = .ok value ∧ value.truthy = false

theorem Clause.holds_iff {c : Clause} :
    c.Holds names ↔ (c.value names).toOption.map Token.truthy = some true := by
  unfold Clause.Holds
  cases c.value names <;> simp [Except.toOption]

theorem Clause.fails_iff {c : Clause} :
    c.Fails names ↔ (c.value names).toOption.map Token.truthy = some false := by
  unfold Clause.Fails
  cases c.value names <;> simp [Except.toOption]

instance (c : Clause) : Decidable (c.Holds names) := decidable_of_iff _ Clause.holds_iff.symm

instance (c : Clause) : Decidable (c.Fails names) := decidable_of_iff _ Clause.fails_iff.symm

/-- A chain of clauses: `if`, any number of `elseif`, and at most one `else`. -/
structure Conditional where
  first : Clause
  others : List Clause
  last : Option Arm
  first_reads : Directive.ofKey? first.key.name = some (.when first.condition)
  others_read : ∀ c ∈ others, Directive.ofKey? c.key.name = some (.elseWhen c.condition)
  last_reads : ∀ arm ∈ last, Directive.ofKey? arm.key.name = some .otherwise

namespace Conditional

/-- The clauses that have conditions. -/
def clauses (c : Conditional) : List Clause := c.first :: c.others

/-- All that a conditional is made of, in order. -/
def arms (c : Conditional) : List Arm := c.clauses.map (·.toArm) ++ c.last.toList

/-- A conditional in a sequence. -/
def items (c : Conditional) : List Token := c.arms.map Arm.item

/-- A conditional in a mapping. -/
def entries (c : Conditional) : List Entry := c.arms.map Arm.entry

end Conditional

/-! ### What the conditions decide -/

/-- The arm of the first clause whose condition is true, or the last arm. -/
def firstHolding (names : Token) : List Clause → Option Arm → Except Diagnostic (Option Arm)
  | [], last => .ok last
  | c :: rest, last => do
    if (← c.value names).truthy then return some c.toArm else firstHolding names rest last

theorem firstHolding_of_fails {skipped : List Clause} (h : ∀ c ∈ skipped, c.Fails names)
    (rest : List Clause) (last : Option Arm) :
    firstHolding names (skipped ++ rest) last = firstHolding names rest last := by
  induction skipped with
  | nil => rfl
  | cons c skipped ih =>
      obtain ⟨⟨value, hvalue, hfalse⟩, hskipped⟩ := List.forall_mem_cons.mp h
      rw [List.cons_append, firstHolding, hvalue, ← ih hskipped]
      exact if_neg (by simp [hfalse])

theorem firstHolding_of_holds {c : Clause} (h : c.Holds names) (rest : List Clause)
    (last : Option Arm) : firstHolding names (c :: rest) last = .ok (some c.toArm) := by
  obtain ⟨value, hvalue, htrue⟩ := h
  rw [firstHolding, hvalue]
  exact if_pos htrue

theorem firstHolding_of_error {c : Clause} {d : Diagnostic} (h : c.value names = .error d)
    (rest : List Clause) (last : Option Arm) :
    firstHolding names (c :: rest) last = .error d := by
  rw [firstHolding, h]
  rfl

theorem branchOn_of_holds {c : Clause} (h : c.Holds names) :
    branchOn names c.key c.condition = .ok (.take (some true)) := by
  obtain ⟨value, hvalue, htrue⟩ := h
  rw [Clause.value] at hvalue
  rw [branchOn, hvalue]
  exact if_pos htrue

theorem branchOn_of_fails {c : Clause} (h : c.Fails names) :
    branchOn names c.key c.condition = .ok (.skip (some false)) := by
  obtain ⟨value, hvalue, hfalse⟩ := h
  rw [Clause.value] at hvalue
  rw [branchOn, hvalue]
  exact if_neg (by simp [hfalse])

theorem branchOn_of_error {c : Clause} {d : Diagnostic} (h : c.value names = .error d) :
    branchOn names c.key c.condition = .error d := by
  rw [Clause.value] at h
  rw [branchOn, h]
  rfl

/-- A condition fails to evaluate, or it is true, or it is false. -/
theorem Clause.cases (c : Clause) (names : Token) :
    (∃ d, c.value names = .error d) ∨ c.Holds names ∨ c.Fails names := by
  cases hvalue : c.value names with
  | error d => exact .inl ⟨d, rfl⟩
  | ok value =>
      cases htruthy : value.truthy with
      | true => exact .inr (.inl ⟨value, hvalue, htruthy⟩)
      | false => exact .inr (.inr ⟨value, hvalue, htruthy⟩)

/-! ### Loops over arms -/

/-- A loop that goes through arms with a chain, and adds to a state what those that are taken
contribute. -/
structure Walks (names : Token) (contribute : σ → Arm → Charged σ)
    (loop : Chain → σ → List Arm → Charged β) : Prop where
  take : ∀ {arm directive chain next}, Directive.ofKey? arm.key.name = some directive →
    selectBranch names arm.key directive chain = .ok (.take next) → ∀ s rest,
      loop chain s (arm :: rest) = contribute s arm >>= fun s => loop next s rest
  skip : ∀ {arm directive chain next}, Directive.ofKey? arm.key.name = some directive →
    selectBranch names arm.key directive chain = .ok (.skip next) → ∀ s rest,
      loop chain s (arm :: rest) = loop next s rest
  fault : ∀ {arm directive chain d}, Directive.ofKey? arm.key.name = some directive →
    selectBranch names arm.key directive chain = .error d → ∀ s rest,
      loop chain s (arm :: rest) = throw d

/-- Adds what the arm that is decided for contributes, if any. -/
def settle (contribute : σ → Arm → Charged σ) (s : σ) : Option Arm → Charged σ
  | none => pure s
  | some arm => contribute s arm

namespace Walks

variable {contribute : σ → Arm → Charged σ} {loop : Chain → σ → List Arm → Charged β}
  {last : Option Arm} {others : List Clause} {chain : Chain}

/-- Behind a clause that was taken, nothing is looked at. -/
theorem skip_rest (h : Walks names contribute loop)
    (hlast : ∀ arm ∈ last, Directive.ofKey? arm.key.name = some .otherwise)
    (hend : last = none → ∀ chain s, loop chain s [] = loop none s [])
    (hothers : ∀ c ∈ others, Directive.ofKey? c.key.name = some (.elseWhen c.condition)) (s : σ) :
    loop (some true) s (others.map (·.toArm) ++ last.toList) = loop none s [] := by
  induction others with
  | nil =>
      cases last with
      | none => exact hend rfl _ s
      | some arm => exact h.skip (hlast arm rfl) rfl s []
  | cons c rest ih =>
      obtain ⟨hc, hrest⟩ := List.forall_mem_cons.mp hothers
      exact (h.skip hc rfl s _).trans (ih hrest)

/-- One clause whose condition is asked: it is taken, or the clauses behind it decide. -/
theorem clause (h : Walks names contribute loop) {c : Clause} {directive : Directive}
    {arms : List Arm} (hc : Directive.ofKey? c.key.name = some directive)
    (hasked : selectBranch names c.key directive chain = branchOn names c.key c.condition)
    (htaken : ∀ s, loop (some true) s arms = loop none s [])
    (hnot : ∀ s, loop (some false) s arms = (do
      let chosen ← firstHolding names others last
      loop none (← settle contribute s chosen) [])) (s : σ) :
    loop chain s (c.toArm :: arms) = (do
      let chosen ← firstHolding names (c :: others) last
      loop none (← settle contribute s chosen) []) := by
  rcases c.cases names with ⟨d, herror⟩ | hholds | hfails
  · rw [h.fault hc (hasked.trans (branchOn_of_error herror)), firstHolding_of_error herror]
    rfl
  · rw [h.take hc (hasked.trans (branchOn_of_holds hholds)), firstHolding_of_holds hholds]
    simp only [htaken]
    rfl
  · have hskip := firstHolding_of_fails (List.forall_mem_singleton.mpr hfails) others last
    rw [List.singleton_append] at hskip
    rw [h.skip hc (hasked.trans (branchOn_of_fails hfails)), hskip]
    exact hnot s

/-- Behind a false condition, the clauses under `elseif` and the last arm decide. -/
theorem go_on (h : Walks names contribute loop)
    (hlast : ∀ arm ∈ last, Directive.ofKey? arm.key.name = some .otherwise)
    (hend : last = none → ∀ chain s, loop chain s [] = loop none s [])
    (hothers : ∀ c ∈ others, Directive.ofKey? c.key.name = some (.elseWhen c.condition)) (s : σ) :
    loop (some false) s (others.map (·.toArm) ++ last.toList) = (do
      let chosen ← firstHolding names others last
      loop none (← settle contribute s chosen) []) := by
  induction others generalizing s with
  | nil =>
      cases last with
      | none => exact hend rfl _ s
      | some arm => exact h.take (hlast arm rfl) rfl s []
  | cons c rest ih =>
      obtain ⟨hc, hrest⟩ := List.forall_mem_cons.mp hothers
      exact h.clause hc rfl (h.skip_rest hlast hend hrest) (ih hrest) s

/-- **A loop takes a conditional for the arm that its conditions decide for**, wherever a chain stood
before it. -/
theorem conditional (h : Walks names contribute loop) (c : Conditional)
    (hend : c.last = none → ∀ chain s, loop chain s [] = loop none s []) (chain : Chain) (s : σ) :
    loop chain s c.arms = (do
      let chosen ← firstHolding names c.clauses c.last
      loop none (← settle contribute s chosen) []) :=
  h.clause c.first_reads rfl (h.skip_rest c.last_reads hend c.others_read)
    (h.go_on c.last_reads hend c.others_read) s

end Walks

/-! ### The two loops of evaluation -/

theorem itemDirective?_item {arm : Arm} {directive : Directive}
    (h : Directive.ofKey? arm.key.name = some directive) :
    itemDirective? arm.item = some (arm.key, directive) := by
  rw [Arm.item, itemDirective?, h]
  rfl

/-- The loop over items, with the items before it and the ones behind. -/
theorem walks_items (l : Limits) (names : Token) (depth : Nat) (after : List Token) :
    Walks names
      (fun own arm => do return own ++ (← evalBody l names depth arm.item))
      (fun chain own arms => do
        return own ++ (← evalItems l names depth chain (arms.map Arm.item ++ after))) where
  take hd hselect own rest := by
    rw [List.map_cons, List.cons_append, evalItems, itemDirective?_item hd]
    dsimp only
    rw [hselect, lift_ok_bind]
    simp only [bind_assoc, pure_bind, List.append_assoc]
  skip hd hselect own rest := by
    rw [List.map_cons, List.cons_append, evalItems, itemDirective?_item hd]
    dsimp only
    rw [hselect]
    rfl
  fault hd hselect own rest := by
    rw [List.map_cons, List.cons_append, evalItems, itemDirective?_item hd]
    dsimp only
    rw [hselect]
    rfl

/-- The loop over entries, with those that are done and the ones behind. -/
theorem walks_entries (l : Limits) (names : Token) (depth : Nat) (after : List Entry) :
    Walks names
      (fun done arm => do mergeBody arm.key done (← evalToken l names (depth + 1) arm.body))
      (fun chain done arms => evalEntries l names depth chain done (arms.map Arm.entry ++ after)) where
  take hd hselect done rest := by
    rw [List.map_cons, List.cons_append, Arm.entry, evalEntries, hd]
    dsimp only
    rw [hselect, lift_ok_bind, bind_assoc]
  skip hd hselect done rest := by
    rw [List.map_cons, List.cons_append, Arm.entry, evalEntries, hd]
    dsimp only
    rw [hselect]
    rfl
  fault hd hselect done rest := by
    rw [List.map_cons, List.cons_append, Arm.entry, evalEntries, hd]
    dsimp only
    rw [hselect]
    rfl

/-! ### What a conditional contributes -/

/-- What an arm contributes to a sequence; without one, nothing. -/
def armItems (l : Limits) (names : Token) (depth : Nat) : Option Arm → Charged (List Token)
  | none => return []
  | some arm => evalBody l names depth arm.item

/-- What an arm contributes to a mapping; without one, nothing. -/
def armEntries (l : Limits) (names : Token) (depth : Nat) (done : List Entry) :
    Option Arm → Charged (List Entry)
  | none => return done
  | some arm => do mergeBody arm.key done (← evalToken l names (depth + 1) arm.body)

/-- A body whose own node is not charged when it contributes to a sequence. -/
def Token.isSpread : Token → Bool
  | .null _ | .sequence .. => true
  | _ => false

/-- An arm contributes the items of its evaluated body to a sequence: those of a sequence, none for null,
and otherwise the value alone. -/
theorem bodyItems_evalToken (l : Limits) (names : Token) (depth : Nat) (arm : Arm) :
    (do return bodyItems (← evalToken l names (depth + 1) arm.body)) = (do
      if arm.body.isSpread then l.enter (depth + 1)
      evalBody l names depth arm.item) := by
  obtain ⟨o, key, body⟩ := arm
  cases body with
  | null => simp [Arm.item, evalToken, evalBody, bodyItems, Token.isSpread]
  | sequence => simp [Arm.item, evalToken, evalBody, bodyItems, Token.isSpread]
  | _ => simp [Arm.item, evalBody, Token.isSpread]

/-- In sequences and mappings, a conditional does what an arm of it does, or does nothing. What stands
behind a conditional without a last arm must not go on with it. -/
structure Contributes (l : Limits) (names : Token) (depth : Nat) (c : Conditional)
    (arm : Option Arm) : Prop where
  items : ∀ chain before after, (c.last = none → BeginsAnew after) →
    evalItems l names depth chain (before ++ (c.items ++ after)) = do
      let own ← evalItems l names depth chain before
      let body ← armItems l names depth arm
      let more ← evalItems l names depth none after
      return own ++ body ++ more
  entries : ∀ chain done before after, (c.last = none → EntriesBeginAnew after) →
    evalEntries l names depth chain done (before ++ (c.entries ++ after)) = do
      let done ← evalEntries l names depth chain done before
      let done ← armEntries l names depth done arm
      evalEntries l names depth none done after

/-- In sequences and mappings, a conditional fails. -/
structure FailsWith (l : Limits) (names : Token) (depth : Nat) (c : Conditional) (d : Diagnostic) :
    Prop where
  items : ∀ chain before after, (c.last = none → BeginsAnew after) →
    evalItems l names depth chain (before ++ (c.items ++ after)) = do
      let _ ← evalItems l names depth chain before
      throw d
  entries : ∀ chain done before after, (c.last = none → EntriesBeginAnew after) →
    evalEntries l names depth chain done (before ++ (c.entries ++ after)) = do
      let _ ← evalEntries l names depth chain done before
      throw d

namespace Conditional

variable {c : Conditional}

theorem beginsAnew_items (c : Conditional) (after : List Token) : BeginsAnew (c.items ++ after) := by
  rintro item ⟨⟩ key directive hdirective
  rw [itemDirective?_item c.first_reads] at hdirective
  cases hdirective
  exact id

theorem entriesBeginAnew_entries (c : Conditional) (after : List Entry) :
    EntriesBeginAnew (c.entries ++ after) := by
  rintro e ⟨⟩ directive hdirective
  rw [Arm.entry, c.first_reads] at hdirective
  cases hdirective
  exact id

/-- Between other items, a conditional does what its conditions decide for. -/
theorem evalItems_around (c : Conditional) (chain : Chain) (before after : List Token)
    (hafter : c.last = none → BeginsAnew after) :
    evalItems l names depth chain (before ++ (c.items ++ after)) = do
      let own ← evalItems l names depth chain before
      let chosen ← firstHolding names c.clauses c.last
      let body ← armItems l names depth chosen
      let more ← evalItems l names depth none after
      return own ++ body ++ more := by
  rw [evalItems_append (c.beginsAnew_items after)]
  refine congrArg _ (funext fun own => ?_)
  have hconditional := (walks_items l names depth after).conditional c
    (fun hnone chain own => by
      rw [List.map_nil, List.nil_append, evalItems_of_beginsAnew (hafter hnone)]) none own
  refine hconditional.trans (congrArg _ (funext fun chosen => ?_))
  cases chosen with
  | none => simp only [settle, armItems, pure_bind, List.append_nil, List.map_nil, List.nil_append]
  | some arm => simp only [settle, armItems, bind_assoc, pure_bind, List.map_nil, List.nil_append]

/-- Between other entries, a conditional does what its conditions decide for. -/
theorem evalEntries_around (c : Conditional) (chain : Chain) (done before after : List Entry)
    (hafter : c.last = none → EntriesBeginAnew after) :
    evalEntries l names depth chain done (before ++ (c.entries ++ after)) = (do
      let done ← evalEntries l names depth chain done before
      let chosen ← firstHolding names c.clauses c.last
      let done ← armEntries l names depth done chosen
      evalEntries l names depth none done after) := by
  rw [evalEntries_append (c.entriesBeginAnew_entries after)]
  refine congrArg _ (funext fun done => ?_)
  have hconditional := (walks_entries l names depth after).conditional c
    (fun hnone chain done => by
      rw [List.map_nil, List.nil_append, evalEntries_of_beginAnew (hafter hnone)]) none done
  refine hconditional.trans (congrArg _ (funext fun chosen => ?_))
  cases chosen <;> rfl

theorem contributes_of_firstHolding {arm : Option Arm}
    (h : firstHolding names c.clauses c.last = .ok arm) : Contributes l names depth c arm where
  items chain before after hafter := by
    rw [c.evalItems_around chain before after hafter, h]
    rfl
  entries chain done before after hafter := by
    rw [c.evalEntries_around chain done before after hafter, h]
    rfl

theorem failsWith_of_firstHolding {d : Diagnostic}
    (h : firstHolding names c.clauses c.last = .error d) : FailsWith l names depth c d where
  items chain before after hafter := by
    rw [c.evalItems_around chain before after hafter, h]
    rfl
  entries chain done before after hafter := by
    rw [c.evalEntries_around chain done before after hafter, h]
    rfl

end Conditional

/-- **A conditional contributes exactly its first true branch.** Where the conditions before one are
false, and it is true, the conditional does what the body there does, in a sequence and in a mapping,
whatever stands around it; the clauses behind make no difference. Where it cannot be evaluated, the
evaluation fails with its fault. Where all conditions are false, the conditional does what the body under
`else` does, or nothing without one. What a body does in a sequence is to contribute the items of its
value, but for the charge of its own node. -/
theorem contributes_firstTrue (l : Limits) (names : Token) (depth : Nat) (c : Conditional) :
    (∀ skipped taken later, c.clauses = skipped ++ taken :: later →
        (∀ clause ∈ skipped, clause.Fails names) →
          (taken.Holds names → Contributes l names depth c (some taken.toArm)) ∧
            ∀ d, taken.value names = .error d → FailsWith l names depth c d) ∧
      ((∀ clause ∈ c.clauses, clause.Fails names) → Contributes l names depth c c.last) ∧
      ∀ arm ∈ c.arms, (do return bodyItems (← evalToken l names (depth + 1) arm.body)) = (do
        if arm.body.isSpread then l.enter (depth + 1)
        evalBody l names depth arm.item) := by
  refine ⟨fun skipped taken later hclauses hskipped => ⟨fun hholds => ?_, fun d herror => ?_⟩,
    fun hfails => ?_, fun arm _ => bodyItems_evalToken l names depth arm⟩
  · refine Conditional.contributes_of_firstHolding ?_
    rw [hclauses, firstHolding_of_fails hskipped, firstHolding_of_holds hholds]
  · refine Conditional.failsWith_of_firstHolding ?_
    rw [hclauses, firstHolding_of_fails hskipped, firstHolding_of_error herror]
  · refine Conditional.contributes_of_firstHolding ?_
    rw [← List.append_nil c.clauses, firstHolding_of_fails hfails]
    rfl

/-- Named values with an environment. -/
def inProduction : Token := .ofPairs [("env", .ofText "prod")]

/-- A clause for an environment. -/
def forDevelopment : Clause :=
  { origin := .unknown, key := ⟨.unknown, "$\x7b\x7b if eq(env, 'dev') \x7d\x7d"⟩,
    body := .ofText "compile", condition := "eq(env, 'dev')" }

/-- A clause for another environment, with a sequence. -/
def forProduction : Clause :=
  { origin := .unknown, key := ⟨.unknown, "$\x7b\x7b elseif eq(env, 'prod') \x7d\x7d"⟩,
    body := .ofItems [.ofText "compile", .ofText "deploy"], condition := "eq(env, 'prod')" }

/-- A clause whose condition cannot be evaluated. -/
def forNothing : Clause :=
  { origin := .unknown, key := ⟨.unknown, "$\x7b\x7b else if stage.x \x7d\x7d"⟩,
    body := .ofNull, condition := "stage.x" }

/-- A chain of the three clauses, with `else` behind them. -/
def byEnvironment : Conditional where
  first := forDevelopment
  others := [forProduction, forNothing]
  last := some ⟨.unknown, ⟨.unknown, "$\x7b\x7b else \x7d\x7d"⟩, .ofText "nothing"⟩
  first_reads := by decide +kernel
  others_read := by decide +kernel
  last_reads := by decide +kernel

/-- The second clause is taken, and that the third has no value does not matter. -/
theorem contributes_firstTrue_byEnvironment :
    forDevelopment.Fails inProduction ∧ forProduction.Holds inProduction ∧
      (forNothing.value inProduction).toOption.isNone ∧
      Contributes {} inProduction 1 byEnvironment (some forProduction.toArm) ∧
      ((evalItems {} inProduction 1 none byEnvironment.items).run.run {}).1.toOption.map
        (·.map Token.text?) = some [some "compile", some "deploy"] := by
  have hskipped : ∀ clause ∈ [forDevelopment], clause.Fails inProduction := by decide +kernel
  have hholds : forProduction.Holds inProduction := by decide +kernel
  obtain ⟨hfirst, -⟩ := contributes_firstTrue {} inProduction 1 byEnvironment
  have hcontributes := (hfirst [forDevelopment] forProduction [forNothing] rfl hskipped).1 hholds
  exact ⟨hskipped _ List.mem_cons_self, hholds, by decide +kernel, hcontributes, by decide +kernel⟩

end PipelineExpansion.Template
