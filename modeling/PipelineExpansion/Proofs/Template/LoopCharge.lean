import PipelineExpansion.Proofs.Template.Concatenation

/-!
# What loops are charged

Events are counted where nodes are entered, not where loops turn. A round of a loop in a mapping enters
the body, so the loop is charged an event for each round at least, and a loop with more rounds than the
limit admits fails. In a sequence, null and a sequence under the loop are not entered themselves, only
the items are; so the rounds are charged if the body is some other node, or a sequence with an item that
is no directive. A body without items is free, however many rounds there are, but a round that contributes
an item is charged.

## Main results

* `isPaid_evalItems`: items that contribute anything are charged, however deep in directives it stands.
* `loop_isCharged`: which loops are charged for each round, and which are free.
* `idleLoop_isFree`: a loop of three rounds in a sequence that is charged one event for all of them.
-/

namespace PipelineExpansion.Template

variable {α β σ : Type} {l : Limits} {names : Token} {depth j k : Nat}

/-! ### Adding events -/

/-- A step that succeeds adds at least so many events, and those that it adds are within the limit. -/
def Adds (l : Limits) (k : Nat) (x : Charged α) : Prop :=
  ∀ u a u', x.run.run u = (.ok a, u') →
    u.events + k ≤ u'.events ∧ u'.events ≤ max u.events l.maxEvents

theorem Metered.adds {x : Charged α} (h : Metered l α x) : Adds l 0 x := by
  intro u a u' hrun
  have hok : ¬ IsLimited (x.run.run u).1 := by
    rw [hrun]
    exact not_isLimited_ok a
  obtain ⟨r, events, bytes, hfits, hsame⟩ := h.exists_run hok
  have hu' : u' = u.plus events bytes := congrArg Prod.snd (hrun.symm.trans (hsame u hok))
  rw [hu', Usage.plus]
  dsimp only
  omega

theorem Adds.bind {x : Charged α} {f : α → Charged β} (h : Adds l j x) (h' : ∀ a, Adds l k (f a)) :
    Adds l (j + k) (x >>= f) := by
  intro u b u' hrun
  obtain ⟨a, u₁, hx, hf⟩ := run_bind_eq_ok.mp hrun
  have hfirst := h u a u₁ hx
  have hrest := h' a u₁ b u' hf
  omega

/-- Metered steps behind the first make no difference. -/
theorem Adds.bind_metered {x : Charged α} {f : α → Charged β} (h : Adds l k x)
    (h' : ∀ a, Metered l β (f a)) : Adds l k (x >>= f) :=
  h.bind fun a => (h' a).adds

/-- Nor do metered steps in front of the last. -/
theorem Metered.bind_adds {x : Charged α} {f : α → Charged β} (h : Metered l α x)
    (h' : ∀ a, Adds l k (f a)) : Adds l k (x >>= f) := by
  have hbind := h.adds.bind h'
  rwa [Nat.zero_add] at hbind

theorem adds_mapM {f : α → Charged β} (h : ∀ a, Adds l 1 (f a)) (items : List α) :
    Adds l items.length (items.mapM f) := by
  induction items with
  | nil => exact ((composes_metered l).pure []).adds
  | cons a rest ih =>
      rw [List.mapM_cons, List.length_cons, Nat.add_comm]
      exact (h a).bind fun b => ih.bind_metered fun bs => (composes_metered l).pure _

theorem adds_foldlM {step : σ → α → Charged σ} (h : ∀ s a, Adds l 1 (step s a)) (items : List α)
    (s : σ) : Adds l items.length (items.foldlM step s) := by
  induction items generalizing s with
  | nil => exact ((composes_metered l).pure s).adds
  | cons a rest ih =>
      rw [List.foldlM_cons, List.length_cons, Nat.add_comm]
      exact (h s a).bind ih

/-- A step that adds events cannot add more of them than the limit admits. -/
theorem Adds.le_maxEvents {x : Charged α} (h : Adds l k x) {u u' : Usage} {a : α}
    (hrun : x.run.run u = (.ok a, u')) : u.events + k ≤ u'.events ∧ k ≤ l.maxEvents := by
  have := h u a u' hrun
  omega

/-! ### What nodes are charged -/

theorem adds_enter (l : Limits) (depth : Nat) : Adds l 1 (l.enter depth) := by
  intro u a u' hrun
  rw [run_enter, run_chargeEvents] at hrun
  split at hrun
  · cases hrun
  · split at hrun
    · cases hrun
    · cases hrun
      dsimp only
      omega

/-- Every token is charged an event of its own. -/
theorem adds_evalToken (l : Limits) (names : Token) (depth : Nat) (t : Token) :
    Adds l 1 (evalToken l names depth t) := by
  have henter := adds_enter l depth
  have hmetered := composes_metered l
  cases t with
  | text o s =>
      rw [evalToken]
      exact henter.bind_metered fun _ => hmetered.evalText names o s
  | sequence o items =>
      rw [evalToken]
      exact henter.bind_metered fun _ => hmetered.map (hmetered.evalItems names depth none items) _
  | mapping o entries =>
      rw [evalToken]
      exact henter.bind_metered fun _ =>
        hmetered.map (hmetered.evalEntries names depth none [] entries) _
  | null | boolean | number =>
      unfold evalToken
      exact henter.bind_metered fun _ => hmetered.pure _

/-- A body that is charged in a sequence, whatever it comes to: neither null, nor a sequence of directives
alone. -/
def Token.IsCharged : Token → Prop
  | .null _ => False
  | .sequence _ items => ∃ item ∈ items, itemDirective? item = none
  | _ => True

/-- A body that has nothing for a sequence. -/
def Token.IsIdle : Token → Prop
  | .null _ | .sequence _ [] => True
  | _ => False

/-- Items of which one is no directive are charged. -/
theorem adds_evalItems {items : List Token} (h : ∃ item ∈ items, itemDirective? item = none)
    (chain : Chain) : Adds l 1 (evalItems l names depth chain items) := by
  obtain ⟨item, hmem, hplain⟩ := h
  obtain ⟨before, after, rfl⟩ := List.mem_iff_append.mp hmem
  have hmetered := composes_metered l
  have hanew : BeginsAnew (item :: after) := by
    rintro _ ⟨⟩ key directive hdirective
    rw [hplain] at hdirective
    cases hdirective
  rw [evalItems_append hanew]
  refine (hmetered.evalItems names depth chain before).bind_adds fun own => ?_
  refine Adds.bind_metered ?_ fun more => hmetered.pure _
  rw [evalItems, hplain]
  exact (adds_evalToken l names (depth + 1) item).bind_metered fun value =>
    hmetered.map (hmetered.evalItems names depth none after) _

theorem adds_evalBody {body : Token} (h : body.IsCharged) (names : Token) (o : Origin) (key : Key) :
    Adds l 1 (evalBody l names depth (.mapping o [(key, body)])) := by
  cases body with
  | null => exact absurd h id
  | sequence _ items =>
      unfold evalBody
      exact adds_evalItems h none
  | mapping | text | number | boolean =>
      unfold evalBody
      exact (adds_evalToken l names (depth + 1) _).bind_metered fun _ => (composes_metered l).pure _

theorem evalBody_of_isIdle {body : Token} (h : body.IsIdle) (names : Token) (o : Origin) (key : Key) :
    evalBody l names depth (.mapping o [(key, body)]) = pure [] := by
  match body with
  | .null _ => rfl
  | .sequence _ [] => rfl
  | .sequence _ (_ :: _) | .mapping .. | .text .. | .number .. | .boolean .. => exact absurd h id

/-! ### What contributes is charged -/

/-- A step that is charged an event at least, if it has anything for a sequence. -/
def IsPaid (x : Charged (List Token)) : Prop :=
  ∀ u ts u', x.run.run u = (.ok ts, u') → u.events + min ts.length 1 ≤ u'.events

/-- How many of some rounds contribute anything. -/
def contributing (own : List (List Token)) : Nat := own.countP fun ts => !ts.isEmpty

theorem contributing_cons (ts : List Token) (own : List (List Token)) :
    contributing (ts :: own) = min ts.length 1 + contributing own := by
  cases ts with
  | nil => simp [contributing]
  | cons t ts => simp [contributing, Nat.add_comm]

/-- Rounds contribute nothing unless one of them does. -/
theorem min_length_flatten_le (own : List (List Token)) :
    min own.flatten.length 1 ≤ contributing own := by
  induction own with
  | nil => exact Nat.zero_le _
  | cons ts own ih =>
      rw [List.flatten_cons, List.length_append, contributing_cons]
      omega

theorem isPaid_nil : IsPaid (pure []) := by
  rintro u ts u' ⟨⟩
  exact Nat.le_refl _

theorem Adds.isPaid {x : Charged (List Token)} (h : Adds l 1 x) : IsPaid x := by
  intro u ts u' hrun
  have := h u ts u' hrun
  omega

theorem Metered.bind_isPaid {x : Charged α} {f : α → Charged (List Token)} (h : Metered l α x)
    (h' : ∀ a, IsPaid (f a)) : IsPaid (x >>= f) := by
  intro u ts u' hrun
  obtain ⟨a, u₁, hx, hf⟩ := run_bind_eq_ok.mp hrun
  have hfirst := h.adds u a u₁ hx
  have hrest := h' a u₁ ts u' hf
  omega

theorem IsPaid.append {x y : Charged (List Token)} (hx : IsPaid x) (hy : IsPaid y) :
    IsPaid (do
      let own ← x
      let more ← y
      return own ++ more) := by
  intro u ts u' hrun
  obtain ⟨own, u₁, hown, hrest⟩ := run_bind_eq_ok.mp hrun
  obtain ⟨more, u₂, hmore, ⟨⟩⟩ := run_bind_eq_ok.mp hrest
  have hfirst := hx u own u₁ hown
  have hsecond := hy u₁ more _ hmore
  rw [List.length_append]
  omega

/-- Rounds are charged an event for each that contributes. -/
theorem contributing_le {f : α → Charged (List Token)} (h : ∀ a, IsPaid (f a)) {items : List α}
    {own : List (List Token)} {u u' : Usage} (hrun : (items.mapM f).run.run u = (.ok own, u')) :
    u.events + contributing own ≤ u'.events := by
  induction items generalizing own u with
  | nil =>
      cases hrun
      exact Nat.le_refl _
  | cons a rest ih =>
      rw [List.mapM_cons] at hrun
      obtain ⟨ts, u₁, hts, hrest⟩ := run_bind_eq_ok.mp hrun
      obtain ⟨own', u₂, hown', ⟨⟩⟩ := run_bind_eq_ok.mp hrest
      have hfirst := h a u ts u₁ hts
      have hothers := ih hown'
      rw [contributing_cons]
      omega

theorem isPaid_flatten {f : α → Charged (List Token)} (h : ∀ a, IsPaid (f a)) (items : List α) :
    IsPaid (do return (← items.mapM f).flatten) := by
  intro u ts u' hrun
  obtain ⟨own, u₁, hown, ⟨⟩⟩ := run_bind_eq_ok.mp hrun
  exact Nat.le_trans (Nat.add_le_add_left (min_length_flatten_le own) _) (contributing_le h hown)

mutual

/-- **Items that contribute are charged**, however deep in directives. -/
theorem isPaid_evalItems (l : Limits) (names : Token) (depth : Nat) (chain : Chain)
    (items : List Token) : IsPaid (evalItems l names depth chain items) := by
  have hmetered := composes_metered l
  match items with
  | [] => exact isPaid_nil
  | item :: rest =>
      rw [evalItems]
      split
      · exact ((adds_evalToken l names (depth + 1) item).bind_metered fun value =>
          hmetered.map (hmetered.evalItems names depth none rest) _).isPaid
      · refine (hmetered.lift _).bind_isPaid fun branch => ?_
        split
        · next next =>
          exact (isPaid_evalBody l names depth item).append (isPaid_evalItems l names depth next rest)
        · next next => exact isPaid_evalItems l names depth next rest
        · refine (hmetered.lift _).bind_isPaid fun rounds => ?_
          have hown := isPaid_flatten (fun names => isPaid_evalBody l names depth item) rounds
          simpa only [bind_assoc, pure_bind] using
            hown.append (isPaid_evalItems l names depth none rest)
termination_by sizeOf items

theorem isPaid_evalBody (l : Limits) (names : Token) (depth : Nat) (item : Token) :
    IsPaid (evalBody l names depth item) := by
  match item with
  | .mapping _ [(_, .sequence _ items)] =>
      unfold evalBody
      exact isPaid_evalItems l names (depth + 1) none items
  | .mapping _ [(_, .mapping ..)] | .mapping _ [(_, .text ..)] | .mapping _ [(_, .number ..)]
  | .mapping _ [(_, .boolean ..)] =>
      unfold evalBody
      exact ((adds_evalToken l names (depth + 1) _).bind_metered fun _ =>
        (composes_metered l).pure _).isPaid
  | .mapping _ [(_, .null _)] | .mapping _ [] | .mapping _ (_ :: _ :: _) | .sequence ..
  | .null _ | .boolean .. | .number .. | .text .. =>
      unfold evalBody
      exact isPaid_nil
termination_by sizeOf item

end

/-! ### Loops -/

/-- A key is a loop whose expression yields a collection with these elements. -/
def LoopsOver (names : Token) (key : Key) (name : String) (xs : List Token) : Prop :=
  ∃ source, Directive.ofKey? key.name = some (.each name source) ∧
    evalExpression names key.origin.span source >>= elements key = .ok xs

variable {key : Key} {name : String} {xs : List Token}

/-- A loop is gone through with its elements, wherever a chain stands. -/
theorem LoopsOver.exists_rounds (h : LoopsOver names key name xs) :
    ∃ source collection, Directive.ofKey? key.name = some (.each name source) ∧
      (∀ chain, selectBranch names key (.each name source) chain = .ok (.loop name collection)) ∧
      rounds names key name collection = .ok (xs.map (bindName names name)) := by
  obtain ⟨source, hkey, hyields⟩ := h
  obtain ⟨collection, hvalue, hxs⟩ := bind_eq_ok.mp hyields
  refine ⟨source, collection, hkey, fun chain => ?_, ?_⟩
  · rw [selectBranch, hvalue]
    rfl
  · rw [rounds, hxs]
    rfl

/-- A loop does not go on with a chain. -/
theorem LoopsOver.not_continues (h : LoopsOver names key name xs) {directive : Directive}
    (hdirective : Directive.ofKey? key.name = some directive) : ¬ directive.Continues := by
  obtain ⟨source, hkey, -⟩ := h
  rw [hkey] at hdirective
  cases hdirective
  exact id

theorem LoopsOver.beginsAnew (h : LoopsOver names key name xs) (o : Origin) (body : Token)
    (after : List Token) : BeginsAnew (.mapping o [(key, body)] :: after) := by
  rintro _ ⟨⟩ key' directive hdirective
  rw [itemDirective?, Option.map_eq_some_iff] at hdirective
  obtain ⟨found, hfound, hpair⟩ := hdirective
  cases hpair
  exact h.not_continues hfound

/-- In a sequence, a loop contributes what its body does in each round. -/
theorem evalItems_loop (h : LoopsOver names key name xs) (o : Origin) (body : Token) (chain : Chain)
    (after : List Token) :
    evalItems l names depth chain (.mapping o [(key, body)] :: after) = do
      let own ← (xs.map (bindName names name)).mapM fun names =>
        evalBody l names depth (.mapping o [(key, body)])
      let more ← evalItems l names depth none after
      return own.flatten ++ more := by
  obtain ⟨source, collection, hkey, hselect, hrounds⟩ := h.exists_rounds
  have hdirective : itemDirective? (.mapping o [(key, body)]) = some (key, .each name source) := by
    rw [itemDirective?, hkey]
    rfl
  rw [evalItems, hdirective]
  dsimp only
  rw [hselect, lift_ok_bind]
  dsimp only
  rw [hrounds, lift_ok_bind]

/-- In a mapping, a loop merges what its body is in each round. -/
theorem evalEntries_loop (h : LoopsOver names key name xs) (body : Token) (chain : Chain)
    (done after : List Entry) :
    evalEntries l names depth chain done ((key, body) :: after) = (do
      let done ← (xs.map (bindName names name)).foldlM
        (fun done names => do mergeBody key done (← evalToken l names (depth + 1) body)) done
      evalEntries l names depth none done after) := by
  obtain ⟨source, collection, hkey, hselect, hrounds⟩ := h.exists_rounds
  rw [evalEntries, hkey]
  dsimp only
  rw [hselect, lift_ok_bind]
  dsimp only
  rw [hrounds, lift_ok_bind]

/-- A loop is charged an event for each round in a mapping. -/
theorem adds_evalEntries_loop (h : LoopsOver names key name xs) (body : Token) (chain : Chain)
    (done before after : List Entry) :
    Adds l xs.length (evalEntries l names depth chain done (before ++ (key, body) :: after)) := by
  have hmetered := composes_metered l
  have hanew : EntriesBeginAnew ((key, body) :: after) := by
    rintro _ ⟨⟩ directive hdirective
    exact h.not_continues hdirective
  rw [evalEntries_append hanew]
  refine (hmetered.evalEntries names depth chain done before).bind_adds fun done => ?_
  rw [evalEntries_loop h]
  refine Adds.bind_metered ?_ fun done => hmetered.evalEntries names depth none done after
  rw [← List.length_map (bindName names name)]
  refine adds_foldlM (fun done names => ?_) _ done
  exact (adds_evalToken l names (depth + 1) body).bind_metered fun _ => hmetered.lift _

/-- A loop is charged an event for each round in a sequence, if its body is. -/
theorem adds_evalItems_loop (h : LoopsOver names key name xs) {body : Token} (hbody : body.IsCharged)
    (o : Origin) (chain : Chain) (before after : List Token) :
    Adds l xs.length
      (evalItems l names depth chain (before ++ .mapping o [(key, body)] :: after)) := by
  have hmetered := composes_metered l
  rw [evalItems_append (h.beginsAnew o body after)]
  refine (hmetered.evalItems names depth chain before).bind_adds fun own => ?_
  rw [evalItems_loop h, ← List.length_map (bindName names name)]
  refine Adds.bind_metered ?_ fun more => hmetered.pure _
  refine Adds.bind_metered ?_ fun own => hmetered.map (hmetered.evalItems names depth none after) _
  exact adds_mapM (fun names => adds_evalBody hbody names o key) _

/-- In a sequence, a loop is charged an event for each round that contributes, whatever its body. -/
theorem evalItems_loop_contributing (h : LoopsOver names key name xs) (body : Token) (o : Origin)
    (chain : Chain) (before after : List Token) {u u' : Usage} {ts : List Token}
    (hrun : (evalItems l names depth chain (before ++ .mapping o [(key, body)] :: after)).run.run u
      = (.ok ts, u')) :
    ∃ pre own post u₁ u₂, ts = pre ++ (own.flatten ++ post) ∧
      ((xs.map (bindName names name)).mapM fun names =>
        evalBody l names depth (.mapping o [(key, body)])).run.run u₁ = (.ok own, u₂) ∧
      u.events + contributing own ≤ u'.events := by
  have hmetered := composes_metered l
  rw [evalItems_append (h.beginsAnew o body after), evalItems_loop h] at hrun
  obtain ⟨pre, u₁, hpre, hrun⟩ := run_bind_eq_ok.mp hrun
  obtain ⟨more, u₃, hrun, ⟨⟩⟩ := run_bind_eq_ok.mp hrun
  obtain ⟨own, u₂, hown, hrun⟩ := run_bind_eq_ok.mp hrun
  obtain ⟨post, u₄, hpost, ⟨⟩⟩ := run_bind_eq_ok.mp hrun
  refine ⟨pre, own, post, u₁, u₂, rfl, hown, ?_⟩
  have hbefore := (hmetered.evalItems names depth chain before).adds u pre u₁ hpre
  have hrounds := contributing_le (fun names => isPaid_evalBody l names depth _) hown
  have hafter := (hmetered.evalItems names depth none after).adds u₂ post _ hpost
  omega

/-- A loop with a body that has nothing for a sequence is as if it were not there. -/
theorem evalItems_idle_loop (h : LoopsOver names key name xs) {body : Token} (hbody : body.IsIdle)
    (o : Origin) (chain : Chain) (after : List Token) :
    evalItems l names depth chain (.mapping o [(key, body)] :: after) =
      evalItems l names depth none after := by
  have hrounds (rounds : List Token) :
      (rounds.mapM fun names => evalBody l names depth (.mapping o [(key, body)])) =
        pure (rounds.map fun _ => []) := by
    simp only [evalBody_of_isIdle hbody, List.mapM_pure]
  have hnothing : ((xs.map (bindName names name)).map fun _ => ([] : List Token)).flatten = [] :=
    List.flatten_eq_nil_iff.mpr (by simp)
  rw [evalItems_loop h, hrounds, pure_bind, hnothing]
  simp only [List.nil_append, bind_pure]

/-- **Which loops are charged for their rounds.** In a mapping, whatever the body, a loop that succeeds
adds an event for each element of its collection, so it has no more rounds than the limit has events. In a
sequence this holds of every body but null and sequences of directives alone. Of any body there, a loop
adds an event for each round that contributes something; and over null or an empty sequence, it adds
nothing at all. -/
theorem loop_isCharged (h : LoopsOver names key name xs) (body : Token) :
    (∀ chain done before after u es u',
        (evalEntries l names depth chain done (before ++ (key, body) :: after)).run.run u
            = (.ok es, u') →
          u.events + xs.length ≤ u'.events ∧ xs.length ≤ l.maxEvents) ∧
      (body.IsCharged → ∀ o chain before after u ts u',
        (evalItems l names depth chain (before ++ .mapping o [(key, body)] :: after)).run.run u
            = (.ok ts, u') →
          u.events + xs.length ≤ u'.events ∧ xs.length ≤ l.maxEvents) ∧
      (∀ o chain before after u ts u',
        (evalItems l names depth chain (before ++ .mapping o [(key, body)] :: after)).run.run u
            = (.ok ts, u') →
          ∃ pre own post u₁ u₂, ts = pre ++ (own.flatten ++ post) ∧
            ((xs.map (bindName names name)).mapM fun names =>
              evalBody l names depth (.mapping o [(key, body)])).run.run u₁ = (.ok own, u₂) ∧
            u.events + contributing own ≤ u'.events) ∧
      (body.IsIdle → ∀ o chain after,
        evalItems l names depth chain (.mapping o [(key, body)] :: after) =
          evalItems l names depth none after) := by
  refine ⟨fun chain done before after u es u' hrun => ?_,
    fun hbody o chain before after u ts u' hrun => ?_,
    fun o chain before after u ts u' hrun => ?_,
    fun hbody o chain after => evalItems_idle_loop h hbody o chain after⟩
  · exact (adds_evalEntries_loop h body chain done before after).le_maxEvents hrun
  · exact (adds_evalItems_loop h hbody o chain before after).le_maxEvents hrun
  · exact evalItems_loop_contributing h body o chain before after hrun

/-- A loop is known from its key and the number of elements that its expression yields. -/
theorem exists_loopsOver {source : String} {n : Nat}
    (hkey : Directive.ofKey? key.name = some (.each name source))
    (hlength : (evalExpression names key.origin.span source >>= elements key).toOption.map
      List.length = some n) : ∃ xs, LoopsOver names key name xs ∧ xs.length = n := by
  obtain ⟨xs, hxs, hn⟩ := Option.map_eq_some_iff.mp hlength
  cases hyields : evalExpression names key.origin.span source >>= elements key with
  | error d =>
      rw [hyields] at hxs
      cases hxs
  | ok ys =>
      rw [hyields] at hxs
      cases hxs
      exact ⟨xs, ⟨source, hkey, hyields⟩, hn⟩

/-- Named values with a collection of three. -/
def threeNulls : Token := .ofPairs [("xs", .ofItems [.ofNull, .ofNull, .ofNull])]

/-- A key that is a loop over that collection. -/
def eachKey : Key := ⟨.unknown, "$\x7b\x7b each x in xs \x7d\x7d"⟩

theorem exists_loopsOver_threeNulls : ∃ xs, LoopsOver threeNulls eachKey "x" xs ∧ xs.length = 3 :=
  exists_loopsOver (show Directive.ofKey? eachKey.name = some (.each "x" "xs") by decide +kernel)
    (by decide +kernel)

/-- Over null in a mapping and over a text in a sequence, the loop is charged for its three rounds. -/
theorem loop_isCharged_threeNulls :
    ∃ xs, LoopsOver threeNulls eachKey "x" xs ∧ xs.length = 3 ∧ (Token.ofText "a").IsCharged ∧
      (∃ es u', (evalEntries {} threeNulls 1 none [] [(eachKey, .ofNull)]).run.run {} = (.ok es, u') ∧
        3 ≤ u'.events) ∧
      ∃ ts u', (evalItems {} threeNulls 1 none [.mapping .unknown [(eachKey, .ofText "a")]]).run.run {}
        = (.ok ts, u') ∧ 3 ≤ u'.events := by
  obtain ⟨xs, hxs, hlength⟩ := exists_loopsOver_threeNulls
  obtain ⟨es, hentries⟩ := exists_run_of_isSome (x := evalEntries {} threeNulls 1 none []
    [(eachKey, .ofNull)]) (u := {}) (by decide +kernel)
  obtain ⟨ts, hitems⟩ := exists_run_of_isSome (x := evalItems {} threeNulls 1 none
    [.mapping .unknown [(eachKey, .ofText "a")]]) (u := {}) (by decide +kernel)
  have hentry := ((loop_isCharged hxs .ofNull).1 none [] [] [] {} es _ hentries).1
  have hitem := ((loop_isCharged hxs (.ofText "a")).2.1 trivial .unknown none [] [] {} ts _ hitems).1
  rw [hlength] at hentry hitem
  exact ⟨xs, hxs, hlength, trivial, ⟨es, _, hentries, by simpa using hentry⟩, ts, _, hitems,
    by simpa using hitem⟩

/-- A loop over null in a sequence. -/
def idleLoop : Token := .ofItems [.mapping .unknown [(eachKey, .ofNull)]]

/-- The three rounds of a loop over null pass under a limit of one event, which the sequence around it is
charged. -/
theorem idleLoop_isFree :
    (∃ xs, LoopsOver threeNulls eachKey "x" xs ∧ xs.length = 3) ∧
      ∃ t u', (evaluate { maxEvents := 1 } idleLoop threeNulls).run.run {} = (.ok t, u') ∧
        u'.events = 1 := by
  obtain ⟨t, hrun⟩ := exists_run_of_isSome (x := evaluate { maxEvents := 1 } idleLoop threeNulls)
    (u := {}) (by decide +kernel)
  exact ⟨exists_loopsOver_threeNulls, t, _, hrun, by decide +kernel⟩

end PipelineExpansion.Template
