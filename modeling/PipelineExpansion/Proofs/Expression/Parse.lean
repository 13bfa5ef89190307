import PipelineExpansion.Expression.Parse
import PipelineExpansion.Proofs.Expression.Lexeme

/-!
# Reading the tokens of an expression

The reader goes on as far as the tokens let it, so what it makes of the tokens of an expression
depends on what follows them: `Stops k` says of the tokens behind an expression that neither a
step nor an operator of a level up to `k` goes on with it. An expression behind which an operator
or a step may follow is not read to its end; for these the reader is said to arrive, with the
expression in hand, at the loop that goes on with it (`ReadsSteps`, `ReadsChain`). The budget
shrinks by a step in each call; eight for each token are enough.

## Main results

* `reads`: the tokens of a printable expression are read as that expression.
* `parseAll_tokens`: an expression is read off its own tokens.
-/

namespace PipelineExpansion.Expression

/-! ### What stops the reader -/

/-- Neither a step nor a call nor an operator of a level up to `k` comes first. -/
def Stops (k : Nat) : List Token → Prop
  | .symbol s :: _ =>
    s ≠ .openParen ∧ s ≠ .dot ∧ s ≠ .openBracket ∧ ∀ op, s.operator? = some op → k < op.level
  | _ => True

/-- No arguments come first. -/
def NoCall (ts : List Token) : Prop := ∀ rest, ts ≠ .symbol .openParen :: rest

theorem Stops.noCall {k : Nat} {ts : List Token} (h : Stops k ts) : NoCall ts := by
  rintro rest rfl
  exact h.1 rfl

theorem Stops.mono {j k : Nat} {ts : List Token} (h : Stops k ts) (hjk : j ≤ k) : Stops j ts := by
  unfold Stops at h ⊢
  split at h
  · obtain ⟨hparen, hdot, hbracket, hop⟩ := h
    exact ⟨hparen, hdot, hbracket, fun op hs => Nat.lt_of_le_of_lt hjk (hop op hs)⟩
  · trivial

/-- A symbol that neither opens anything nor is an operator stops every level. -/
theorem stops_symbol {s : Symbol} (k : Nat) (rest : List Token) (hparen : s ≠ .openParen)
    (hdot : s ≠ .dot)
    (hbracket : s ≠ .openBracket) (hop : s.operator? = none) : Stops k (.symbol s :: rest) :=
  ⟨hparen, hdot, hbracket, fun op hs => by rw [hop] at hs; cases hs⟩

theorem operator?_symbol (op : Operator) : op.symbol.operator? = some op := by
  cases op <;> rfl

/-- An operator stops the levels below its own. -/
theorem stops_operator {op : Operator} {k : Nat} (rest : List Token) (h : k < op.level) :
    Stops k (.symbol op.symbol :: rest) := by
  refine ⟨by cases op <;> decide, by cases op <;> decide, by cases op <;> decide,
    fun op' hs => ?_⟩
  rw [operator?_symbol] at hs
  cases hs
  exact h

theorem nextOperator?_of_stops {k : Nat} {ts : List Token} (h : Stops k ts) :
    nextOperator? k ts = none := by
  unfold nextOperator?
  split
  · next s rest =>
    cases hs : s.operator? with
    | none => rfl
    | some op => simp only [if_neg (Nat.ne_of_gt (h.2.2.2 op hs))]
  · rfl

/-- Where no step follows, the loop for steps ends. -/
theorem parseSteps_of_stops {k : Nat} {ts : List Token} (n : Nat) (e : Expr) (h : Stops k ts) :
    parseSteps n e ts = .ok (e, ts) := by
  cases n with
  | zero => rfl
  | succ n =>
      rw [parseSteps]
      · rintro rest rfl
        exact h.2.1 rfl
      · rintro rest rfl
        exact h.2.2.1 rfl

/-- Where no operator of its level follows, the loop for operators ends. -/
theorem parseChain_of_stops {k : Nat} {ts : List Token} (n : Nat) (e : Expr)
    (h : Stops (k + 1) ts) :
    parseChain n k e ts = .ok (e, ts) := by
  cases n with
  | zero => rfl
  | succ n => rw [parseChain, nextOperator?_of_stops h]

/-! ### What it is to be read -/

/-- The reader arrives at the steps behind `e`. -/
def ReadsSteps (ts : List Token) (e : Expr) : Prop :=
  ∀ n rest, NoCall rest → 8 * ts.length + 1 ≤ n →
    ∃ m, n ≤ m + 8 * ts.length ∧ parsePrefix n (ts ++ rest) = parseSteps m e rest

/-- The tokens are read as `e` where no operator may stand. -/
def ReadsPrefix (ts : List Token) (e : Expr) : Prop :=
  ∀ n rest, Stops 0 rest → 8 * ts.length + 1 ≤ n → parsePrefix n (ts ++ rest) = .ok (e, rest)

/-- The tokens are read as `e` where operators up to a level may stand. -/
def ReadsLevel (k : Nat) (ts : List Token) (e : Expr) : Prop :=
  ∀ n rest, Stops k rest → 8 * ts.length + k + 2 ≤ n → parseLevel n k (ts ++ rest) = .ok (e, rest)

/-- The reader arrives at the operators of the level above `k` behind `e`. -/
def ReadsChain (k : Nat) (ts : List Token) (e : Expr) : Prop :=
  ∀ n rest, Stops k rest → 8 * ts.length + k + 3 ≤ n →
    ∃ m, n ≤ m + 8 * ts.length ∧ parseLevel n (k + 1) (ts ++ rest) = parseChain m k e rest

/-- The tokens are read as the elements of a list that a symbol closes. -/
def ReadsList (stop : Symbol) (ts : List Token) (es : List Expr) : Prop :=
  ∀ n rest, 8 * ts.length + 7 ≤ n → parseList n stop (ts ++ .symbol stop :: rest) = .ok (es, rest)

/-- The tokens are read as the further elements of a list that a symbol closes. -/
def ReadsTail (stop : Symbol) (ts : List Token) (es : List Expr) : Prop :=
  ∀ n rest, 8 * ts.length ≤ n → parseTail n (ts ++ .symbol stop :: rest)
    = .ok (es, .symbol stop :: rest)

variable {ts : List Token} {e : Expr} {k : Nat}

theorem ReadsSteps.toPrefix (h : ReadsSteps ts e) : ReadsPrefix ts e := by
  intro n rest hrest hn
  obtain ⟨m, -, hm⟩ := h n rest hrest.noCall hn
  rw [hm, parseSteps_of_stops m e hrest]

theorem ReadsPrefix.level (h : ReadsPrefix ts e) : ReadsLevel 0 ts e := by
  intro n rest hrest hn
  obtain ⟨n, rfl⟩ : ∃ n', n = n' + 1 := ⟨n - 1, by omega⟩
  rw [parseLevel]
  exact h n rest hrest (by omega)

theorem ReadsLevel.chain (h : ReadsLevel k ts e) (hts : ts ≠ []) : ReadsChain k ts e := by
  intro n rest hrest hn
  obtain ⟨n, rfl⟩ : ∃ n', n = n' + 1 := ⟨n - 1, by omega⟩
  have hlength := List.length_pos_iff.mpr hts
  refine ⟨n, by omega, ?_⟩
  rw [parseLevel, h n rest hrest (by omega)]
  rfl

theorem ReadsChain.level (h : ReadsChain k ts e) : ReadsLevel (k + 1) ts e := by
  intro n rest hrest hn
  obtain ⟨m, -, hm⟩ := h n rest (hrest.mono (Nat.le_succ k)) (by omega)
  rw [hm, parseChain_of_stops m e hrest]

/-- What is read at a level is read at the looser ones. -/
theorem ReadsLevel.mono {j : Nat} (h : ReadsLevel j ts e) (hts : ts ≠ []) (hjk : j ≤ k) :
    ReadsLevel k ts e := by
  induction hjk with
  | refl => exact h
  | step _ ih => exact (ih.chain hts).level

/-! ### Parentheses, steps and operators -/

/-- A closing symbol stops every level. -/
theorem stops_close (k : Nat) {s : Symbol} (rest : List Token)
    (h : s = .closeParen ∨ s = .closeBracket ∨ s = .comma) : Stops k (.symbol s :: rest) := by
  rcases h with rfl | rfl | rfl
  all_goals exact stops_symbol k rest (by decide) (by decide) (by decide) rfl

/-- Steps may stand behind parentheses. -/
theorem ReadsLevel.parens (h : ReadsLevel loosest ts e) :
    ReadsSteps (.symbol .openParen :: (ts ++ [.symbol .closeParen])) e := by
  intro n rest _ hn
  simp only [List.length_cons, List.length_append, List.length_nil] at hn ⊢
  obtain ⟨n, rfl⟩ : ∃ n', n = n' + 2 := ⟨n - 2, by omega⟩
  refine ⟨n + 1, by omega, ?_⟩
  have hinner := h n (.symbol .closeParen :: rest) (stops_close _ _ (.inl rfl)) (by
    simp only [loosest]
    omega)
  rw [List.cons_append, List.append_assoc, List.singleton_append, parsePrefix, parsePrimary,
    hinner]
  · rfl
  · simp

/-- A property behind an expression. -/
theorem ReadsSteps.property (h : ReadsSteps ts e) (he : e.isReference = false) {t : Token}
    {name : String}
    (ht : propertyName? t = some name) :
      ReadsSteps (ts ++ [.symbol .dot, t]) (.member e name) := by
  intro n rest _ hn
  simp only [List.length_cons, List.length_append, List.length_nil] at hn ⊢
  obtain ⟨m, hmn, hm⟩ := h n (.symbol .dot :: t :: rest) (by simp [NoCall]) (by omega)
  obtain ⟨m, rfl⟩ : ∃ m', m = m' + 1 := ⟨m - 1, by omega⟩
  refine ⟨m, by omega, ?_⟩
  have hmember : withProperty e name = .member e name := by
    cases e <;> first | rfl | simp [Expr.isReference] at he
  rw [List.append_assoc, List.cons_append, List.singleton_append, hm, parseSteps]
  simp only [ht, hmember]

/-- An index behind an expression, which joins the parts of a reference. -/
theorem parseSteps_index {i : Expr} (h : ReadsLevel loosest ts i) {n : Nat} (rest : List Token)
    (hn : 8 * ts.length + 7 ≤ n) :
    parseSteps n e (.symbol .openBracket :: (ts ++ .symbol .closeBracket :: rest))
      = parseSteps (n - 1) (withIndex e i) rest := by
  obtain ⟨n, rfl⟩ : ∃ n', n = n' + 1 := ⟨n - 1, by omega⟩
  have hinner := h n (.symbol .closeBracket :: rest) (stops_close _ _ (.inr (.inl rfl))) (by
    simp only [loosest]
    omega)
  rw [parseSteps, hinner]
  rfl

theorem ReadsSteps.index (h : ReadsSteps ts e) (he : e.isReference = false) {us : List Token}
    {i : Expr}
    (hi : ReadsLevel loosest us i) :
    ReadsSteps (ts ++ .symbol .openBracket :: (us ++ [.symbol .closeBracket])) (.index e i) := by
  intro n rest _ hn
  simp only [List.length_cons, List.length_append, List.length_nil] at hn ⊢
  obtain ⟨m, hmn, hm⟩ := h n (.symbol .openBracket :: (us ++ .symbol .closeBracket :: rest))
    (by simp [NoCall]) (by omega)
  refine ⟨m - 1, by omega, ?_⟩
  have hindex : withIndex e i = .index e i := by
    cases e <;> first | rfl | simp [Expr.isReference] at he
  rw [← hindex, ← parseSteps_index hi rest (by omega), ← hm]
  simp

/-- A negation. -/
theorem ReadsPrefix.not (h : ReadsPrefix ts e) : ReadsPrefix (.symbol .not :: ts) (.not e) := by
  intro n rest hrest hn
  simp only [List.length_cons] at hn
  obtain ⟨n, rfl⟩ : ∃ n', n = n' + 1 := ⟨n - 1, by omega⟩
  rw [List.cons_append, parsePrefix, h n rest hrest (by omega)]
  rfl

/-- An operator between operands: the left one may have an operator of the same level, the right
one not. -/
theorem ReadsChain.binary {op : Operator} (h : ReadsChain k ts e) {us : List Token} {right : Expr}
    (hright : ReadsLevel k us right) (hop : op.level = k + 1) :
    ReadsChain k (ts ++ .symbol op.symbol :: us) (.binary op e right) := by
  intro n rest hrest hn
  simp only [List.length_cons, List.length_append] at hn ⊢
  obtain ⟨m, hmn, hm⟩ :=
    h n (.symbol op.symbol :: (us ++ rest)) (stops_operator _ (by omega)) (by omega)
  obtain ⟨m, rfl⟩ : ∃ m', m = m' + 1 := ⟨m - 1, by omega⟩
  refine ⟨m, by omega, ?_⟩
  have hnext : nextOperator? (k + 1) (.symbol op.symbol :: (us ++ rest))
    = some (op, us ++ rest) := by
    simp only [nextOperator?, operator?_symbol, hop, if_true]
  rw [List.append_assoc, List.cons_append, hm, parseChain, hnext]
  simp only [hright m rest hrest (by omega)]
  rfl

/-! ### Expressions -/

/-- How the tokens of an expression are read, in each place where it may stand without
parentheses. -/
structure Reads (e : Expr) : Prop where
  steps : e.isPostfix = true → ReadsSteps e.tokens e
  operand : e.level = 0 → ReadsPrefix e.tokens e
  chain : ∀ k, e.level ≤ k + 1 → ReadsChain k e.tokens e

theorem tokens_ne_nil (e : Expr) : e.tokens ≠ [] := by
  cases e with
  | boolean b => cases b <;> simp [Expr.tokens]
  | _ => simp [Expr.tokens]

theorem Reads.level (h : Reads e) (hk : e.level ≤ k) : ReadsLevel k e.tokens e := by
  cases k with
  | zero => exact (h.operand (by omega)).level
  | succ k => exact (h.chain k hk).level

theorem Reads.loosest (h : Reads e) : ReadsLevel loosest e.tokens e := by
  refine h.level ?_
  cases e with
  | binary op _ _ =>
      rw [Expr.level]
      cases op <;> decide
  | _ => exact Nat.zero_le _

/-- Without an operator, an expression is read at all levels once it is read at the tightest. -/
theorem Reads.of_operand (h : ReadsPrefix e.tokens e)
    (hsteps : e.isPostfix = true → ReadsSteps e.tokens e) :
    Reads e where
  steps := hsteps
  operand := fun _ => h
  chain := fun _ _ =>
    (h.level.mono (tokens_ne_nil e) (Nat.zero_le _)).chain (tokens_ne_nil e)

theorem Reads.of_steps (h : ReadsSteps e.tokens e) : Reads e :=
  .of_operand h.toPrefix fun _ => h

/-- Parentheses make an operand of every expression. -/
theorem Reads.enclosed_steps (h : Reads e) : ReadsSteps (enclosed (!e.isPostfix) e.tokens) e := by
  unfold enclosed
  split
  · exact h.loosest.parens
  · next hpostfix => exact h.steps (by simpa using hpostfix)

theorem Reads.enclosed_operand (h : Reads e) :
    ReadsPrefix (enclosed (0 < e.level) e.tokens) e := by
  unfold enclosed
  split
  · exact h.loosest.parens.toPrefix
  · next hlevel => exact h.operand (by simpa using hlevel)

/-- The operand on the right of an operator of the level above `k`. -/
theorem Reads.enclosed_right (h : Reads e) :
    ReadsLevel k (enclosed (k + 1 ≤ e.level) e.tokens) e := by
  unfold enclosed
  split
  · exact h.loosest.parens.toPrefix.level.mono (by simp) (Nat.zero_le k)
  · next hlevel => exact h.level (Nat.le_of_lt_succ (by simpa using hlevel))

/-- The operand on the left of an operator of the level above `k`. -/
theorem Reads.enclosed_left (h : Reads e) :
    ReadsChain k (enclosed (k + 1 < e.level) e.tokens) e := by
  unfold enclosed
  split
  · exact (h.loosest.parens.toPrefix.level.mono (by simp) (Nat.zero_le k)).chain (by simp)
  · next hlevel => exact h.chain k (by simpa using hlevel)

theorem Reads.binary {op : Operator} {left right : Expr} (hleft : Reads left)
    (hright : Reads right) :
    Reads (.binary op left right) := by
  obtain ⟨j, hj⟩ : ∃ j, op.level = j + 1 := by cases op <;> exact ⟨_, rfl⟩
  have hchain : ReadsChain j (Expr.binary op left right).tokens (.binary op left right) := by
    rw [Expr.tokens, hj]
    exact hleft.enclosed_left.binary hright.enclosed_right hj
  refine ⟨nofun, fun h => ?_, fun k hk => ?_⟩
  · rw [Expr.level, hj] at h
    omega
  · rw [Expr.level, hj] at hk
    rcases Nat.lt_or_eq_of_le (Nat.le_of_succ_le_succ hk) with hlt | rfl
    · exact (hchain.level.mono (tokens_ne_nil _) hlt).chain (tokens_ne_nil _)
    · exact hchain

/-! ### Lists -/

/-- No expression begins with a symbol that closes one. -/
theorem parseLevel_close {s : Symbol} (hs : s = .closeParen ∨ s = .closeBracket) (n k : Nat)
    (rest : List Token) : ∃ fault, parseLevel n k (.symbol s :: rest) = .error fault := by
  induction k generalizing n with
  | zero =>
      rcases hs with rfl | rfl <;> rcases n with _ | _ | _ | n <;> exact ⟨_, rfl⟩
  | succ k ih =>
      cases n with
      | zero => exact ⟨_, rfl⟩
      | succ n =>
          obtain ⟨fault, hfault⟩ := ih n
          refine ⟨fault, ?_⟩
          rw [parseLevel, hfault]
          rfl

theorem ReadsLevel.head_ne (h : ReadsLevel k ts e) {s : Symbol}
    (hs : s = .closeParen ∨ s = .closeBracket)
    {rest : List Token} (hrest : Stops k rest) : (ts ++ rest).head? ≠ some (.symbol s) := by
  intro hhead
  obtain ⟨more, hmore⟩ := List.head?_eq_some_iff.mp hhead
  obtain ⟨fault, hfault⟩ := parseLevel_close hs (8 * ts.length + k + 2) k more
  rw [← hmore, h _ rest hrest (Nat.le_refl _)] at hfault
  cases hfault

theorem stops_tailTokens (k : Nat) {stop : Symbol}
    (hs : stop = .closeParen ∨ stop = .closeBracket)
    (es : List Expr) (rest : List Token) :
      Stops k (Expr.tailTokens es ++ .symbol stop :: rest) := by
  cases es with
  | nil => exact stops_close k _ (by simpa [← or_assoc] using Or.inl hs)
  | cons e es =>
      rw [Expr.tailTokens]
      exact stops_close k _ (.inr (.inr rfl))

theorem readsTail {stop : Symbol} (hs : stop = .closeParen ∨ stop = .closeBracket)
    {es : List Expr}
    (h : ∀ e ∈ es, Reads e) : ReadsTail stop (Expr.tailTokens es) es := by
  induction es with
  | nil =>
      intro n rest _
      cases n with
      | zero => rfl
      | succ n => rcases hs with rfl | rfl <;> rfl
  | cons e es ih =>
      intro n rest hn
      rw [Expr.tailTokens] at hn ⊢
      simp only [List.length_cons, List.length_append] at hn
      obtain ⟨n, rfl⟩ : ∃ n', n = n' + 1 := ⟨n - 1, by omega⟩
      have hfirst := (h e List.mem_cons_self).loosest n _ (stops_tailTokens _ hs es rest) (by
        simp only [loosest]
        omega)
      have hrest := ih (fun e he => h e (List.mem_cons_of_mem _ he)) n rest (by omega)
      rw [List.cons_append, List.append_assoc, parseTail, hfirst]
      simp only [bind, Except.bind, hrest]
      rfl

/-- **A list is read off its tokens.** -/
theorem readsList {stop : Symbol} (hs : stop = .closeParen ∨ stop = .closeBracket)
    {es : List Expr}
    (h : ∀ e ∈ es, Reads e) : ReadsList stop (Expr.listTokens es) es := by
  intro n rest hn
  obtain ⟨n, rfl⟩ : ∃ n', n = n' + 1 := ⟨n - 1, by omega⟩
  cases es with
  | nil =>
      rw [Expr.listTokens, List.nil_append, parseList, List.head?_cons, if_pos rfl, List.drop_one,
        List.tail_cons]
  | cons e es =>
      rw [Expr.listTokens] at hn ⊢
      simp only [List.length_append] at hn
      have he := (h e List.mem_cons_self).loosest
      have hfirst := he n _ (stops_tailTokens _ hs es rest) (by
        simp only [loosest]
        omega)
      have hrest := readsTail hs (fun e he => h e (List.mem_cons_of_mem _ he)) n rest (by omega)
      rw [List.append_assoc, parseList, if_neg (he.head_ne hs (stops_tailTokens _ hs es rest)),
        hfirst]
      simp only [bind, Except.bind, hrest, expectSymbol, if_true]
      rfl

/-! ### Printable expressions -/

/-- A token that stands alone. -/
theorem readsSteps_single {t : Token} (h : ∀ n rest, parsePrimary (n + 1) (t :: rest)
    = .ok (e, rest))
    (hnot : t ≠ .symbol .not) : ReadsSteps [t] e := by
  intro n rest _ hn
  simp only [List.length_cons, List.length_nil] at hn ⊢
  obtain ⟨n, rfl⟩ : ∃ n', n = n' + 2 := ⟨n - 2, by omega⟩
  refine ⟨n + 1, by omega, ?_⟩
  rw [List.singleton_append, parsePrefix, h]
  · rfl
  · rintro _ ⟨⟩
    exact hnot rfl

theorem propertyName?_ofName {name : String} (h : IsProperty name) :
    propertyName? (.ofName name) = some name := by
  rcases h with h | ⟨k, rfl⟩
  · rw [h.ofName, propertyName?]
  · cases k <;> rfl

theorem partTokens_noCall (parts : List ReferencePart) {rest : List Token} (hrest : NoCall rest) :
    NoCall (Expr.partTokens parts ++ rest) := by
  cases parts with
  | nil => exact hrest
  | cons part parts => cases part <;> simp [Expr.partTokens, NoCall]

mutual

/-- **The tokens of a printable expression are read as that expression.** -/
theorem reads : (e : Expr) → e.Printable → Reads e
  | .null, _ => .of_steps (readsSteps_single (fun _ _ => rfl) (by decide))
  | .boolean true, _ => .of_steps (readsSteps_single (fun _ _ => rfl) (by decide))
  | .boolean false, _ => .of_steps (readsSteps_single (fun _ _ => rfl) (by decide))
  | .number _, h => h.elim
  | .text s, _ => .of_steps (readsSteps_single (fun _ _ => rfl) nofun)
  | .reference root parts, h => by
    refine .of_steps fun n rest hrest hn => ?_
    rw [Expr.tokens] at hn ⊢
    simp only [List.length_cons] at hn ⊢
    obtain ⟨n, rfl⟩ : ∃ n', n = n' + 2 := ⟨n - 2, by omega⟩
    obtain ⟨m, hmn, hm⟩ := readsParts parts h.2 root [] (n + 1) rest (by omega)
    refine ⟨m, by omega, ?_⟩
    have hprimary : parsePrimary (n + 1) (.name root :: (Expr.partTokens parts ++ rest))
        = .ok (.reference root [], Expr.partTokens parts ++ rest) := by
      rw [parsePrimary]
      exact partTokens_noCall parts hrest
    rw [List.cons_append, parsePrefix, hprimary]
    · exact hm
    · nofun
  | .call function arguments, h => by
    refine .of_steps fun n rest _ hn => ?_
    rw [Expr.tokens] at hn ⊢
    simp only [List.length_cons, List.length_append, List.length_nil] at hn ⊢
    obtain ⟨n, rfl⟩ : ∃ n', n = n' + 2 := ⟨n - 2, by omega⟩
    refine ⟨n + 1, by omega, ?_⟩
    have hlist := readsList (.inl rfl) (readsAll arguments h.2) n rest (by omega)
    simp only [List.cons_append, List.append_assoc, List.nil_append]
    rw [parsePrefix, parsePrimary, hlist]
    · rfl
    · nofun
  | .array items, h => by
    refine .of_steps fun n rest _ hn => ?_
    rw [Expr.tokens] at hn ⊢
    simp only [List.length_cons, List.length_append, List.length_nil] at hn ⊢
    obtain ⟨n, rfl⟩ : ∃ n', n = n' + 2 := ⟨n - 2, by omega⟩
    refine ⟨n + 1, by omega, ?_⟩
    have hlist := readsList (.inr rfl) (readsAll items h) n rest (by omega)
    simp only [List.cons_append, List.append_assoc, List.nil_append]
    rw [parsePrefix, parsePrimary, hlist]
    · rfl
    · nofun
  | .index object i, h => by
    refine .of_steps ?_
    rw [Expr.tokens]
    exact (reads object h.2.1).enclosed_steps.index h.1 (reads i h.2.2).loosest
  | .member object property, h => by
    refine .of_steps ?_
    rw [Expr.tokens]
    exact (reads object h.2.1).enclosed_steps.property h.1 (propertyName?_ofName h.2.2)
  | .not e, h => by
    refine .of_operand ?_ nofun
    rw [Expr.tokens]
    exact (reads e h).enclosed_operand.not
  | .binary _ left right, h => (reads left h.1).binary (reads right h.2)

/-- The steps behind a name join the parts of its reference. -/
theorem readsParts : (parts : List ReferencePart) → Expr.PrintableParts parts →
    ∀ root done n rest, 8 * (Expr.partTokens parts).length ≤ n →
      ∃ m, n ≤ m + 8 * (Expr.partTokens parts).length ∧
        parseSteps n (.reference root done) (Expr.partTokens parts ++ rest)
          = parseSteps m (.reference root (done ++ parts)) rest
  | [], _, root, done, n, rest, _ => ⟨n, by omega, by simp [Expr.partTokens]⟩
  | .property name :: parts, h, root, done, n, rest, hn => by
    rw [Expr.partTokens] at hn ⊢
    simp only [List.length_cons] at hn ⊢
    obtain ⟨n, rfl⟩ : ∃ n', n = n' + 1 := ⟨n - 1, by omega⟩
    obtain ⟨m, hmn, hm⟩ := readsParts parts h.2 root (done ++ [.property name]) n rest (by omega)
    refine ⟨m, by omega, ?_⟩
    rw [List.append_assoc, List.singleton_append] at hm
    rw [← hm, List.cons_append, List.cons_append, parseSteps]
    simp only [propertyName?_ofName h.1, withProperty]
  | .index i :: parts, h, root, done, n, rest, hn => by
    rw [Expr.partTokens] at hn ⊢
    simp only [List.length_cons, List.length_append] at hn ⊢
    obtain ⟨m, hmn, hm⟩ := readsParts parts h.2 root (done ++ [.index i]) (n - 1) rest (by omega)
    refine ⟨m, by omega, ?_⟩
    rw [List.append_assoc, List.singleton_append] at hm
    rw [← hm, List.cons_append, List.append_assoc, List.cons_append,
      parseSteps_index (reads i h.1).loosest _ (by omega)]
    rfl

/-- Each expression of a list is read. -/
theorem readsAll : (es : List Expr) → Expr.PrintableAll es → ∀ e ∈ es, Reads e
  | [], _ => nofun
  | e :: es, h => List.forall_mem_cons.mpr ⟨reads e h.1, readsAll es h.2⟩

end

theorem parseAll_tokens {e : Expr} (h : e.Printable) : parseAll e.tokens = .ok e := by
  have hlevel := (reads e h).loosest (8 * (e.tokens.length + 2)) [] trivial (by
    simp only [loosest]
    omega)
  rw [List.append_nil] at hlevel
  rw [parseAll, if_neg (by simp [tokens_ne_nil]), hlevel]
  rfl

/-! ### The text of an expression -/

theorem isSpelled_ofName {name : String} (h : IsProperty name) :
    (Token.ofName name).IsSpelled := by
  rcases h with h | ⟨k, rfl⟩
  · rw [h.ofName]
    exact h
  · cases k <;> trivial

theorem isSpelled_enclosed (needed : Bool) (h : ∀ t ∈ ts, t.IsSpelled) :
    ∀ t ∈ enclosed needed ts, t.IsSpelled := by
  unfold enclosed
  split
  · rw [List.forall_mem_cons, List.forall_mem_append, List.forall_mem_singleton]
    exact ⟨trivial, h, trivial⟩
  · exact h

mutual

/-- The tokens of a printable expression are read where they are spelled. -/
theorem isSpelled_tokens : (e : Expr) → e.Printable → ∀ t ∈ e.tokens, t.IsSpelled
  | .null, _ | .text _, _ | .boolean true, _ | .boolean false, _ => by
    simp [Expr.tokens, Token.IsSpelled]
  | .number _, h => h.elim
  | .reference _ parts, h => by
    rw [Expr.tokens, List.forall_mem_cons]
    exact ⟨h.1, isSpelled_parts parts h.2⟩
  | .call _ arguments, h => by
    rw [Expr.tokens, List.forall_mem_cons, List.forall_mem_cons, List.forall_mem_append,
      List.forall_mem_singleton]
    exact ⟨h.1, trivial, isSpelled_list arguments h.2, trivial⟩
  | .array items, h => by
    rw [Expr.tokens, List.forall_mem_cons, List.forall_mem_append, List.forall_mem_singleton]
    exact ⟨trivial, isSpelled_list items h, trivial⟩
  | .index object i, h => by
    rw [Expr.tokens, List.forall_mem_append, List.forall_mem_cons, List.forall_mem_append,
      List.forall_mem_singleton]
    exact ⟨isSpelled_enclosed _ (isSpelled_tokens object h.2.1), trivial,
      isSpelled_tokens i h.2.2, trivial⟩
  | .member object property, h => by
    rw [Expr.tokens, List.forall_mem_append, List.forall_mem_cons, List.forall_mem_singleton]
    exact ⟨isSpelled_enclosed _ (isSpelled_tokens object h.2.1), trivial, isSpelled_ofName h.2.2⟩
  | .not e, h => by
    rw [Expr.tokens, List.forall_mem_cons]
    exact ⟨trivial, isSpelled_enclosed _ (isSpelled_tokens e h)⟩
  | .binary op left right, h => by
    rw [Expr.tokens, List.forall_mem_append, List.forall_mem_cons]
    exact ⟨isSpelled_enclosed _ (isSpelled_tokens left h.1), trivial,
      isSpelled_enclosed _ (isSpelled_tokens right h.2)⟩

theorem isSpelled_parts : (parts : List ReferencePart) → Expr.PrintableParts parts →
    ∀ t ∈ Expr.partTokens parts, t.IsSpelled
  | [], _ => nofun
  | .property name :: parts, h => by
    rw [Expr.partTokens, List.forall_mem_cons, List.forall_mem_cons]
    exact ⟨trivial, isSpelled_ofName h.1, isSpelled_parts parts h.2⟩
  | .index i :: parts, h => by
    rw [Expr.partTokens, List.forall_mem_cons, List.forall_mem_append, List.forall_mem_cons]
    exact ⟨trivial, isSpelled_tokens i h.1, trivial, isSpelled_parts parts h.2⟩

theorem isSpelled_list : (es : List Expr) → Expr.PrintableAll es →
    ∀ t ∈ Expr.listTokens es, t.IsSpelled
  | [], _ => nofun
  | e :: es, h => by
    rw [Expr.listTokens, List.forall_mem_append]
    exact ⟨isSpelled_tokens e h.1, isSpelled_tail es h.2⟩

theorem isSpelled_tail : (es : List Expr) → Expr.PrintableAll es →
    ∀ t ∈ Expr.tailTokens es, t.IsSpelled
  | [], _ => nofun
  | e :: es, h => by
    rw [Expr.tailTokens, List.forall_mem_cons, List.forall_mem_append]
    exact ⟨trivial, isSpelled_tokens e h.1, isSpelled_tail es h.2⟩

end

/-- **The text of a printable expression is read as that expression.** -/
theorem parse_print {e : Expr} (h : e.Printable) : parse e.print = .ok e := by
  rw [parse, Expr.print, tokenize_join (isSpelled_tokens e h)]
  simp only [bind, Except.bind, ofTokens, parseAll_tokens h]
  rfl

theorem isIdentifier_of_tokenize {name : String} (h : tokenize name = .ok [.name name]) :
    IsIdentifier name :=
  ⟨name, _, h, List.mem_singleton_self _⟩

/-- An expression with operators of all levels, parentheses on both sides, a keyword as a
property, an index and a quote. -/
def allLevels : Expr :=
  .binary .or
    (.binary .and (.reference "a" [.property "null", .index (.text "x'y")])
      (.not (.not (.binary .eq (.boolean true) (.binary .lt .null (.reference "b-1" []))))))
    (.binary .or (.call "f" [.array [], .member (.call "g" []) "x"])
      (.index (.not .null) (.text "")))

theorem parse_print_allLevels :
    allLevels.Printable ∧
      allLevels.print = "a . null [ 'x''y' ] && ! ! ( true == null < b-1 ) || "
        ++ "( f ( [ ] , g ( ) . x ) || ( ! null ) [ '' ] )" ∧
      parse allLevels.print = .ok allLevels := by
  have hprintable : allLevels.Printable := by
    have ha : IsIdentifier "a" := isIdentifier_of_tokenize (by rfl)
    have hb : IsIdentifier "b-1" := isIdentifier_of_tokenize (by rfl)
    have hf : IsIdentifier "f" := isIdentifier_of_tokenize (by rfl)
    have hg : IsIdentifier "g" := isIdentifier_of_tokenize (by rfl)
    have hx : IsIdentifier "x" := isIdentifier_of_tokenize (by rfl)
    refine ⟨⟨⟨ha, .inr ⟨.null, rfl⟩, trivial, trivial⟩, ?_⟩, ?_⟩
    · exact ⟨trivial, trivial, hb, trivial⟩
    · exact ⟨⟨hf, trivial, ⟨rfl, ⟨hg, trivial⟩, .inl hx⟩, trivial⟩, rfl, trivial, trivial⟩
  exact ⟨hprintable, by rfl, parse_print hprintable⟩

end PipelineExpansion.Expression
