import PipelineExpansion.Proofs.Expression.FileNumber
import PipelineExpansion.Template.Evaluate

/-!
# Evaluation does not see the numbers of files

What a template is evaluated to depends on the numbers of files only in that its tokens carry them.
So does what it is charged: a bare template, evaluated against bare values, uses up what the template
uses up, and fails where the template fails.

The proof follows the mutual recursion of `evalToken`, `evalItems`, `evalBody` and `evalEntries`.

## Main results

* `evaluate_bare`: evaluating and taking numbers away can be done in any order.
-/

namespace PipelineExpansion.Template

open Token (bare)

variable {l : Limits} {names : Token} {key : Key} {α β σ τ : Type}

/-! ### Steps on what is turned into something else -/

section Steps

variable {m : Type → Type} [Monad m] [LawfulMonad m]

/-- A fold commutes with a map of states that its steps commute with. -/
theorem foldlM_hom {f : σ → τ} {step : σ → α → m σ} {step' : τ → β → m τ} {g : α → β}
    (h : ∀ s a, step' (f s) (g a) = f <$> step s a) (items : List α) (s : σ) :
    (items.map g).foldlM step' (f s) = f <$> items.foldlM step s := by
  induction items generalizing s with
  | nil => simp
  | cons a rest ih => simp [h, ih]

theorem mapM_hom {f : α → m β} {f' : σ → m τ} {g : α → σ} {g' : β → τ}
    (h : ∀ a, f' (g a) = g' <$> f a) (items : List α) :
    (items.map g).mapM f' = List.map g' <$> items.mapM f := by
  induction items with
  | nil => simp
  | cons a rest ih => simp [h, ih]

end Steps

@[simp] theorem lift_map (f : α → β) (x : Except Diagnostic α) :
    (liftM (f <$> x) : Charged β) = f <$> (liftM x : Charged α) := by
  cases x <;> rfl

/-! ### Texts -/

@[simp] theorem evalExpression_bare (names : Token) (span : Option Yaml.Span) (source : String) :
    evalExpression names.bare span source = bare <$> evalExpression names span source := by
  simp only [evalExpression, Expression.evaluate_bare]
  cases Expression.evaluate source names <;> rfl

@[simp] theorem segmentText_bare (names : Token) (span : Option Yaml.Span) :
    segmentText names.bare span = segmentText names span := by
  funext s
  cases s <;> simp [segmentText]

@[simp] theorem evalText_bare (l : Limits) (names : Token) (o : Origin) (s : String) :
    evalText l names.bare o.bare s = bare <$> evalText l names o s := by
  have hplace : Token.text o.bare s = (Token.text o s).bare := rfl
  unfold evalText
  split
  · rfl
  · split
    · simp only [Origin.span_bare, evalExpression_bare, lift_map, bind_map_left, map_bind, hplace,
        ← Token.bare_locatedAt]
      refine congrArg _ (funext fun value => ?_)
      cases value.locatedAt (.text o s) <;> simp [bare]
    · simp [bare]

/-! ### Branches and loops -/

/-- A branch whose loop is over a collection without the numbers of files. -/
def Branch.bare : Branch → Branch
  | take next => take next
  | skip next => skip next
  | loop name collection => loop name collection.bare

@[simp] theorem branchOn_bare (names : Token) (key : Key) (condition : String) :
    branchOn names.bare key.bare condition = Branch.bare <$> branchOn names key condition := by
  simp [branchOn, apply_ite (Branch.bare <$> ·)]
  rfl

@[simp] theorem selectBranch_bare (names : Token) (key : Key) (directive : Directive) (chain : Chain) :
    selectBranch names.bare key.bare directive chain =
      Branch.bare <$> selectBranch names key directive chain := by
  cases directive with
  | each name collection => simp [selectBranch, Branch.bare]
  | insert => rfl
  | when condition => simp [selectBranch]
  | elseWhen condition =>
      rcases chain with _ | _ | _ <;> simp [selectBranch]
      rfl
  | otherwise => rcases chain with _ | _ | _ <;> rfl

@[simp] theorem elements_bare (key : Key) (t : Token) :
    elements key.bare t.bare = List.map bare <$> elements key t := by
  cases t <;> simp [bare, elements, Token.kindName]

@[simp] theorem bindName_bare (names : Token) (name : String) (value : Token) :
    bindName names.bare name value.bare = (bindName names name value).bare := by
  have hkept : (names.bare.entries?.getD []).filter (fun e => !Text.sameName e.1.name name) =
      ((names.entries?.getD []).filter fun e => !Text.sameName e.1.name name).map bareEntry := by
    cases hentries : names.entries? <;> simp [hentries, List.filter_map, Function.comp_def]
  simp only [bindName, hkept, Token.bare_mapping, List.map_append]
  rfl

@[simp] theorem rounds_bare (names : Token) (key : Key) (name : String) (collection : Token) :
    rounds names.bare key.bare name collection.bare =
      List.map bare <$> rounds names key name collection := by
  simp only [rounds, elements_bare]
  cases elements key collection <;> simp [Except.map]

/-! ### Collections -/

@[simp] theorem addEntry_bare (entries : List Entry) (e : Entry) :
    addEntry (entries.map bareEntry) (bareEntry e) = List.map bareEntry <$> addEntry entries e := by
  have hadd (entries : List Entry) (e : Entry) : addEntry entries e =
      if entries.any fun p => p.1.name = e.1.name then
        .error (e.1.fault ("'" ++ e.1.name ++ "' is already defined"))
      else .ok (entries ++ [e]) := rfl
  have hany : ((entries.map bareEntry).any fun p => p.1.name = (bareEntry e).1.name) =
      entries.any fun p => p.1.name = e.1.name := by
    rw [List.any_map]
    rfl
  rw [hadd, hadd, hany]
  split
  · rfl
  · rw [map_ok, List.map_append, List.map_singleton]

@[simp] theorem mergeBody_bare (key : Key) (entries : List Entry) (body : Token) :
    mergeBody key.bare (entries.map bareEntry) body.bare =
      List.map bareEntry <$> mergeBody key entries body := by
  cases body with
  | mapping o more =>
      rw [Token.bare_mapping]
      exact foldlM_hom (fun entries e => addEntry_bare entries e) more entries
  | _ => simp [bare, mergeBody, Token.kindName]

@[simp] theorem keyOf_bare (t : Token) : keyOf t.bare = Key.bare <$> keyOf t := by
  simp only [keyOf, Token.display?_bare, Token.fault_bare, Token.origin_bare]
  cases t.display? <;> rfl

@[simp] theorem evalKey_bare (l : Limits) (names : Token) (depth : Nat) (key : Key) :
    evalKey l names.bare depth key.bare = Key.bare <$> evalKey l names depth key := by
  simp [evalKey]

@[simp] theorem spliced_bare (item value : Token) :
    spliced item.bare value.bare = (spliced item value).map bare := by
  cases item <;> cases value <;> simp [bare, spliced]

@[simp] theorem bodyItems_bare (t : Token) : bodyItems t.bare = (bodyItems t).map bare := by
  cases t <;> simp [bare, bodyItems]

@[simp] theorem itemDirective?_bare (t : Token) :
    itemDirective? t.bare = (itemDirective? t).map fun p => (p.1.bare, p.2) := by
  cases t with
  | mapping o entries =>
      rcases entries with _ | ⟨⟨key, value⟩, _ | ⟨second, rest⟩⟩
      · simp [itemDirective?]
      · simp [itemDirective?, bareEntry, Function.comp_def]
      · simp [itemDirective?]
  | _ => rfl

/-! ### The walk -/

mutual

theorem evalToken_bare (l : Limits) (names : Token) (depth : Nat) (t : Token) :
    evalToken l names.bare depth t.bare = bare <$> evalToken l names depth t := by
  match t with
  | .text o s => simp [bare, evalToken]
  | .sequence o items => simp [evalToken, evalItems_bare l names depth none items]
  | .mapping o entries =>
      have hentries := evalEntries_bare l names depth none [] entries
      rw [List.map_nil] at hentries
      simp [evalToken, hentries]
  | .null o | .boolean o b | .number o n => simp [bare, evalToken]
termination_by sizeOf t

theorem evalItems_bare (l : Limits) (names : Token) (depth : Nat) (chain : Chain)
    (items : List Token) :
    evalItems l names.bare depth chain (items.map bare) =
      List.map bare <$> evalItems l names depth chain items := by
  match items with
  | [] => simp [evalItems]
  | item :: rest =>
      rw [List.map_cons, evalItems, evalItems, itemDirective?_bare]
      cases itemDirective? item with
      | none => simp [evalToken_bare l names (depth + 1) item, evalItems_bare l names depth none rest]
      | some found =>
          obtain ⟨key, directive⟩ := found
          simp only [Option.map_some, selectBranch_bare, lift_map, bind_map_left, map_bind]
          refine congrArg _ (funext fun branch => ?_)
          cases branch with
          | take next =>
              simp [Branch.bare, evalBody_bare l names depth item, evalItems_bare l names depth next rest]
          | skip next => exact evalItems_bare l names depth next rest
          | loop name collection =>
              have hbodies (rounds : List Token) :
                  (rounds.map bare).mapM (fun names => evalBody l names depth item.bare) =
                    List.map (List.map bare) <$>
                      rounds.mapM fun names => evalBody l names depth item :=
                mapM_hom (fun names => evalBody_bare l names depth item) rounds
              simp only [Branch.bare, rounds_bare, lift_map, bind_map_left, map_bind, hbodies,
                evalItems_bare l names depth none rest, map_pure, List.map_append, List.map_flatten]
termination_by sizeOf items

theorem evalBody_bare (l : Limits) (names : Token) (depth : Nat) (item : Token) :
    evalBody l names.bare depth item.bare = List.map bare <$> evalBody l names depth item := by
  match item with
  | .mapping o [(key, body)] =>
      have hitem : (Token.mapping o [(key, body)]).bare = .mapping o.bare [(key.bare, body.bare)] := by
        rw [Token.bare_mapping]
        rfl
      have hbody := evalToken_bare l names (depth + 1) body
      rw [hitem]
      match body with
      | .null _ => simp [bare, evalBody]
      | .sequence _ items => simp [evalBody, evalItems_bare l names (depth + 1) none items]
      | .mapping .. =>
          rw [Token.bare_mapping] at hbody ⊢
          simp [evalBody, hbody]
      | .text .. | .number .. | .boolean .. =>
          simp only [bare] at hbody
          simp [bare, evalBody, hbody]
  | .mapping _ [] | .mapping _ (_ :: _ :: _) | .sequence .. | .null _ | .boolean .. | .number ..
  | .text .. => simp [bare, evalBody]
termination_by sizeOf item

theorem evalEntries_bare (l : Limits) (names : Token) (depth : Nat) (chain : Chain)
    (done entries : List Entry) :
    evalEntries l names.bare depth chain (done.map bareEntry) (entries.map bareEntry) =
      List.map bareEntry <$> evalEntries l names depth chain done entries := by
  match entries with
  | [] => simp [evalEntries]
  | (key, value) :: rest =>
      rw [List.map_cons, bareEntry_mk, evalEntries, evalEntries, Key.name_bare]
      have hrest (chain : Chain) (done : List Entry) := evalEntries_bare l names depth chain done rest
      cases Directive.ofKey? key.name with
      | none =>
          have hadd (key : Key) (value : Token) := addEntry_bare done (key, value)
          simp only [bareEntry_mk] at hadd
          simp only [evalKey_bare, evalToken_bare l names (depth + 1) value, hadd, lift_map,
            bind_map_left, map_bind, hrest]
      | some directive =>
          simp only [selectBranch_bare, lift_map, bind_map_left, map_bind]
          refine congrArg _ (funext fun branch => ?_)
          cases branch with
          | take next =>
              simp only [Branch.bare, evalToken_bare l names (depth + 1) value, mergeBody_bare,
                lift_map, bind_map_left, map_bind, hrest]
          | skip next => exact hrest next done
          | loop name collection =>
              have hround (done : List Entry) (names : Token) :
                  (evalToken l names.bare (depth + 1) value.bare >>= fun body =>
                      liftM (mergeBody key.bare (done.map bareEntry) body) : Charged (List Entry)) =
                    List.map bareEntry <$> (evalToken l names (depth + 1) value >>= fun body =>
                      liftM (mergeBody key done body)) := by
                simp only [evalToken_bare l names (depth + 1) value, mergeBody_bare, lift_map,
                  bind_map_left, map_bind]
              simp only [Branch.bare, rounds_bare, lift_map, bind_map_left, map_bind]
              refine congrArg _ (funext fun rounds => ?_)
              rw [foldlM_hom hround]
              simp only [bind_map_left, hrest]
termination_by sizeOf entries

end

/-- **Evaluating and taking the numbers of files away can be done in any order.** -/
theorem evaluate_bare (l : Limits) (t names : Token) :
    evaluate l t.bare names.bare = bare <$> evaluate l t names :=
  evalToken_bare l names 1 t

end PipelineExpansion.Template
