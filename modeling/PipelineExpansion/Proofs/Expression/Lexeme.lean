import Mathlib.Data.List.TakeWhile
import PipelineExpansion.Proofs.Expression.Printer
import PipelineExpansion.Proofs.Outcome
import PipelineExpansion.Proofs.Text.Letter

/-!
# Cutting what was written

A token that was written is cut off the text again where the text ends or a blank follows
(`lexeme_spelling`). Names are the delicate tokens: what a text can yield as a name begins and
goes on as names do, and is no keyword (`IsIdentifier.shape`).

## Main results

* `IsIdentifier.shape`: what the names that some text yields look like.
* `lexeme_spelling`: the spelling of a token is read as that token.
* `tokenize_join`: tokens written with single blanks between them are read as these tokens.
-/

namespace PipelineExpansion.Expression

/-! ### Names -/

theorem beginsName_of_isBlank {c : Char} (h : Text.isBlank c = true) : beginsName c = false := by
  have hne : c ≠ '_' := by
    rintro rfl
    exact absurd h (by decide)
  simp [beginsName, Text.isLetter_of_isBlank h, hne]

/-- The reader of tokens takes what begins a name to its end. -/
theorem lexeme_of_beginsName {c : Char} (h : beginsName c = true) (rest : List Char) :
    lexeme c rest =
      .ok (.ofName (String.ofList (c :: rest.takeWhile continuesName)),
        rest.dropWhile continuesName) := by
  have hdigit : ¬ c.isDigit = true := by
    intro hdigit
    have hne : c ≠ '_' := by
      rintro rfl
      exact absurd hdigit (by decide)
    simp [beginsName, Text.isLetter_of_isDigit hdigit, hne] at h
  unfold lexeme
  split
  case h_14 =>
    have hminus : c ≠ '-' := by
      rintro rfl
      exact absurd h (by decide)
    have hplus : c ≠ '+' := by
      rintro rfl
      exact absurd h (by decide)
    rw [if_neg (by simp [hdigit, hminus, hplus]), if_pos h]
  all_goals exact absurd h (by decide)

theorem pair_eq_ok {second : Char} {both : Symbol} {alone : Option Symbol}
    {rest after : List Char}
    {t : Token} (h : pair second both alone rest = .ok (t, after)) : ∃ s, t = .symbol s := by
  unfold pair at h
  split at h
  · split at h
    · cases h
      exact ⟨_, rfl⟩
    · split at h
      · cases h
        exact ⟨_, rfl⟩
      · cases h
  · cases h
    exact ⟨_, rfl⟩
  · cases h

theorem number_eq_ok {cs after : List Char} {t : Token} (h : number cs = .ok (t, after)) :
    ∃ n, t = .number n := by
  unfold number at h
  dsimp only at h
  split at h
  · cases h
    exact ⟨_, rfl⟩
  · cases h

/-- A name is what keywords are not. -/
theorem ofName_eq_name {s name : String} (h : Token.ofName s = .name name) :
    s = name ∧ Keyword.ofName? name = none := by
  unfold Token.ofName at h
  split at h
  · cases h
  · next hnone =>
    cases h
    exact ⟨rfl, hnone⟩

/-- Names are read only where a name begins. -/
theorem lexeme_eq_name {c : Char} {rest after : List Char} {name : String}
    (h : lexeme c rest = .ok (.name name, after)) :
    beginsName c = true ∧ Token.ofName (String.ofList (c :: rest.takeWhile continuesName))
      = .name name := by
  by_cases hc : beginsName c = true
  · rw [lexeme_of_beginsName hc] at h
    simp only [Except.ok.injEq, Prod.mk.injEq] at h
    exact ⟨hc, h.1⟩
  · have hpair : ∀ {second both alone}, pair second both alone rest
      ≠ .ok (.name name, after) := by
      intro second both alone heq
      obtain ⟨s, hs⟩ := pair_eq_ok heq
      cases hs
    have hnumber : ∀ {cs}, number cs ≠ .ok (.name name, after) := by
      intro cs heq
      obtain ⟨n, hn⟩ := number_eq_ok heq
      cases hn
    unfold lexeme at h
    split at h
    case h_12 => split at h <;> cases h
    case h_13 =>
      split at h
      · exact absurd h hnumber
      · cases h
    case h_14 =>
      rw [if_neg hc] at h
      split at h
      · exact absurd h hnumber
      · cases h
    all_goals first | cases h | exact absurd h hpair

/-- A name among the tokens of a text was read somewhere in it. -/
theorem exists_lexeme_of_tokens {n position : Nat} {cs : List Char} {ts : List Token}
    {name : String}
    (h : tokens n position cs = .ok ts) (hname : Token.name name ∈ ts) :
    ∃ c rest after, lexeme c rest = .ok (.name name, after) := by
  induction n generalizing position cs ts with
  | zero =>
      cases h
      cases hname
  | succ n ih =>
      rw [tokens] at h
      split at h
      · cases h
        cases hname
      · next c rest _ =>
        split at h
        · cases h
        · next token after hlexeme =>
          obtain ⟨more, hmore, hts⟩ := bind_eq_ok.mp h
          cases hts
          rcases List.mem_cons.mp hname with rfl | hmem
          · exact ⟨c, rest, after, hlexeme⟩
          · exact ih hmore hmem

/-- The characters of a name: it begins as names do, goes on as names do, and is no keyword. -/
structure NameShape (name : String) (c : Char) (cs : List Char) : Prop where
  toList : name.toList = c :: cs
  begins : beginsName c = true
  continues : ∀ d ∈ cs, continuesName d = true
  plain : Keyword.ofName? name = none

theorem IsIdentifier.shape {name : String} (h : IsIdentifier name) :
    ∃ c cs, NameShape name c cs := by
  obtain ⟨source, ts, hts, hname⟩ := h
  obtain ⟨c, rest, after, hlexeme⟩ := exists_lexeme_of_tokens hts hname
  obtain ⟨hc, hof⟩ := lexeme_eq_name hlexeme
  obtain ⟨rfl, hplain⟩ := ofName_eq_name hof
  exact ⟨c, _, String.toList_ofList, hc, fun d hd => List.mem_takeWhile_imp hd, hplain⟩

theorem IsIdentifier.ofName {name : String} (h : IsIdentifier name) :
    Token.ofName name = .name name := by
  obtain ⟨c, cs, hshape⟩ := h.shape
  rw [Token.ofName, hshape.plain]

/-! ### Spellings -/

/-- A token that is read where it is spelled: names have to be names, and numbers are left out. -/
def Token.IsSpelled : Token → Prop
  | .name s => IsIdentifier s
  | .number _ => False
  | _ => True

/-- Where a token ends: at the end of a text, or at a blank. -/
def Ends (rest : List Char) : Prop := rest = [] ∨ ∃ more, rest = ' ' :: more

/-- A word is read to where it ends. -/
theorem lexeme_word {c : Char} {cs rest : List Char} (hc : beginsName c = true)
    (hcs : ∀ d ∈ cs, continuesName d = true) (hrest : Ends rest) :
    lexeme c (cs ++ rest) = .ok (.ofName (String.ofList (c :: cs)), rest) := by
  have htake : rest.takeWhile continuesName = [] := by
    rcases hrest with rfl | ⟨more, rfl⟩ <;> rfl
  have hdrop : rest.dropWhile continuesName = rest := by
    rcases hrest with rfl | ⟨more, rfl⟩ <;> rfl
  rw [lexeme_of_beginsName hc, List.takeWhile_append_of_pos hcs, List.dropWhile_append_of_pos hcs,
    htake, hdrop, List.append_nil]

theorem Ends.head_ne {rest : List Char} (h : Ends rest) : rest.head? ≠ some '\'' := by
  rcases h with rfl | ⟨more, rfl⟩ <;> simp

/-- Behind its opening quote, a text is read to its closing quote, behind which comes no other. -/
theorem quoted?_doubled (cs : List Char) {rest : List Char} (hrest : rest.head? ≠ some '\'') :
    quoted? (doubled cs ++ '\'' :: rest) = some (cs, rest) := by
  induction cs with
  | nil =>
      cases rest with
      | nil => rfl
      | cons d more =>
          have hd : d ≠ '\'' := by simpa using hrest
          change quoted? ('\'' :: d :: more) = _
          rw [quoted?, if_pos rfl]
          · exact fun _ => List.cons_ne_nil _ _
          · rintro rest' - hrest'
            exact hd (List.cons.inj hrest').1
  | cons c cs ih =>
      rw [doubled, List.flatMap_cons, List.append_assoc, ← doubled]
      split
      · next h =>
        subst h
        simp only [List.cons_append, List.nil_append, quoted?, ih, Option.map_some]
      · next h =>
        simp only [List.cons_append, List.nil_append]
        rw [quoted?, if_neg h, ih, Option.map_some]
        · rintro rfl
          exact absurd rfl h
        · rintro _ rfl
          exact absurd rfl h

/-- A token that is spelled as a word. -/
theorem lexeme_spelling_word {t : Token} {c : Char} {cs : List Char}
    (ht : t.spelling.toList = c :: cs)
    (hc : beginsName c = true) (hcs : ∀ d ∈ cs, continuesName d = true)
    (hword : Token.ofName t.spelling = t) :
    ∃ c cs, t.spelling.toList = c :: cs ∧ Text.isBlank c = false ∧
      ∀ rest, Ends rest → lexeme c (cs ++ rest) = .ok (t, rest) := by
  refine ⟨c, cs, ht, ?_, fun rest hrest => ?_⟩
  · by_contra hblank
    have hbegins := beginsName_of_isBlank (by simpa using hblank)
    rw [hc] at hbegins
    cases hbegins
  · rw [lexeme_word hc hcs hrest, ← ht, String.ofList_toList, hword]

/-- **A token is read where it is spelled.** -/
theorem lexeme_spelling {t : Token} (ht : t.IsSpelled) :
    ∃ c cs, t.spelling.toList = c :: cs ∧ Text.isBlank c = false ∧
      ∀ rest, Ends rest → lexeme c (cs ++ rest) = .ok (t, rest) := by
  cases t with
  | keyword k =>
      cases k <;> exact lexeme_spelling_word rfl (by decide) (List.all_eq_true.mp (by decide)) rfl
  | number n => exact ht.elim
  | text s =>
      refine ⟨'\'', _, String.toList_ofList, by decide, fun rest hrest => ?_⟩
      rw [List.append_assoc, List.singleton_append]
      simp only [lexeme, quoted?_doubled _ hrest.head_ne, String.ofList_toList]
  | name s =>
      obtain ⟨c, cs, hshape⟩ := IsIdentifier.shape ht
      exact lexeme_spelling_word hshape.toList hshape.begins hshape.continues
        (IsIdentifier.ofName ht)
  | symbol s =>
      cases s <;> refine ⟨_, _, rfl, by decide, fun rest hrest => ?_⟩ <;>
        rcases hrest with rfl | ⟨more, rfl⟩ <;> rfl

/-! ### Tokens between blanks -/

/-- What a token takes is read before what it leaves; blanks may stand before it. -/
theorem tokens_lexeme {t : Token} {blanks after rest : List Char} {c : Char} {n : Nat}
    {ts : List Token} (hblanks : ∀ c ∈ blanks, Text.isBlank c = true) (hc : Text.isBlank c = false)
    (hlexeme : lexeme c rest = .ok (t, after)) (h : ∀ position, tokens n position after = .ok ts)
    (position : Nat) : tokens (n + 1) position (blanks ++ c :: rest) = .ok (t :: ts) := by
  have hdrop : (blanks ++ c :: rest).dropWhile Text.isBlank = c :: rest := by
    rw [List.dropWhile_append_of_pos hblanks, List.dropWhile_cons, hc]
    rfl
  rw [tokens]
  simp only [hdrop, hlexeme, h]
  rfl

/-- One token, which blanks may stand before, is read before the others. -/
theorem tokens_cons {t : Token} (ht : t.IsSpelled) {blanks rest : List Char} {n : Nat}
    {ts : List Token}
    (hblanks : ∀ c ∈ blanks, Text.isBlank c = true) (hrest : Ends rest)
    (h : ∀ position, tokens n position rest = .ok ts) (position : Nat) :
    tokens (n + 1) position (blanks ++ (t.spelling.toList ++ rest)) = .ok (t :: ts) := by
  obtain ⟨c, cs, hspelling, hc, hlexeme⟩ := lexeme_spelling ht
  rw [hspelling, List.cons_append]
  exact tokens_lexeme hblanks hc (hlexeme rest hrest) h position

/-- The characters of further tokens: each stands behind a blank. -/
def behind (ts : List Token) : List Char := ts.flatMap fun t => ' ' :: t.spelling.toList

theorem behind_cons (t : Token) (ts : List Token) :
    behind (t :: ts) = [' '] ++ (t.spelling.toList ++ behind ts) := by
  simp [behind]

theorem ends_behind (ts : List Token) : Ends (behind ts) := by
  cases ts with
  | nil => exact .inl rfl
  | cons t ts => exact .inr ⟨_, behind_cons t ts⟩

theorem length_le_length_behind (ts : List Token) : ts.length ≤ (behind ts).length := by
  induction ts with
  | nil => exact Nat.le_refl 0
  | cons t ts ih =>
      rw [behind_cons, List.length_append, List.length_append, List.length_cons,
        List.length_singleton]
      omega

theorem tokens_behind {ts : List Token} (hts : ∀ t ∈ ts, t.IsSpelled) {n : Nat}
    (hn : ts.length ≤ n)
    (position : Nat) : tokens n position (behind ts) = .ok ts := by
  induction ts generalizing n position with
  | nil => cases n <;> rfl
  | cons t ts ih =>
      obtain ⟨n, rfl⟩ : ∃ n', n = n' + 1 := ⟨n - 1, by rw [List.length_cons] at hn; omega⟩
      rw [List.forall_mem_cons] at hts
      rw [behind_cons]
      exact tokens_cons hts.1 (List.forall_mem_singleton.mpr rfl) (ends_behind ts)
        (fun position => ih hts.2 (Nat.le_of_succ_le_succ hn) position) position

theorem toList_join_spelling (t : Token) (ts : List Token) :
    (Text.join " " ((t :: ts).map Token.spelling)).toList = t.spelling.toList ++ behind ts := by
  rw [Text.join]
  induction ts generalizing t with
  | nil => simp [behind]
  | cons u ts ih =>
      rw [List.map_cons, List.map_cons, String.intercalate_cons_cons, ← List.map_cons]
      simp only [String.toList_append, ih, behind_cons, List.append_assoc]
      rfl

/-- **Tokens with single blanks between them are read as these tokens.** -/
theorem tokenize_join {ts : List Token} (hts : ∀ t ∈ ts, t.IsSpelled) :
    tokenize (Text.join " " (ts.map Token.spelling)) = .ok ts := by
  cases ts with
  | nil => rfl
  | cons t ts =>
      rw [List.forall_mem_cons] at hts
      have hlength := length_le_length_behind ts
      rw [tokenize, ← String.length_toList, toList_join_spelling]
      have hblanks : ∀ c ∈ ([] : List Char), Text.isBlank c = true := nofun
      refine tokens_cons hts.1 hblanks (ends_behind ts) (fun position => ?_) 0
      refine tokens_behind hts.2 ?_ position
      rw [List.length_append]
      omega

end PipelineExpansion.Expression
