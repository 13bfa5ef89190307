import PipelineExpansion.Expression.Segment
import PipelineExpansion.Proofs.Expression.Lexeme
import PipelineExpansion.Proofs.Text.Pieces

/-!
# Where an expression ends

Two scanners read string literals. The one that cuts a text into segments looks for the closing
braces and turns a flag at every quote; the one that cuts an expression into tokens takes doubled
quotes apart. `Passes` says from which flag to which the first scanner goes over characters that
it leaves alone. A literal is passed from inside the quotes to outside of them, and every other
token and every blank holds neither quote nor brace, so that the scanner passes over all that the
second one takes.

## Main results

* `passes_of_tokens`: an expression that is cut into tokens is passed over.
* `segments_of_tokenize`: in a text, such an expression is one segment, and alone it is a whole one.
-/

namespace PipelineExpansion.Expression

/-- The scanner for the closing braces leaves characters alone: with the first flag in front of
them, it goes on behind them with the second. -/
def Passes (quoted : Bool) (cs : List Char) (quoted' : Bool) : Prop :=
  ∀ rest, closeAt? quoted (cs ++ rest) =
    (closeAt? quoted' rest).map fun (body, after) => (cs ++ body, after)

/-- A character that means nothing to the scanner outside of quotes. -/
def IsPlain (c : Char) : Prop := c ≠ '\'' ∧ c ≠ '\x7d'

instance (c : Char) : Decidable (IsPlain c) := inferInstanceAs (Decidable (_ ∧ _))

namespace Passes

theorem nil (q : Bool) : Passes q [] q := by
  intro rest
  simp

theorem append {q q' q'' : Bool} {cs ds : List Char} (hcs : Passes q cs q')
    (hds : Passes q' ds q'') : Passes q (cs ++ ds) q'' := by
  intro rest
  rw [List.append_assoc, hcs, hds, Option.map_map]
  simp [Function.comp_def]

theorem cons {q q' q'' : Bool} {c : Char} {cs : List Char} (hc : Passes q [c] q')
    (hcs : Passes q' cs q'') : Passes q (c :: cs) q'' :=
  hc.append hcs

/-- A quote turns the flag. -/
theorem quote (q : Bool) : Passes q ['\''] !q := by
  intro rest
  simp [closeAt?]

/-- Within quotes, everything else is left alone. -/
theorem within {c : Char} (hc : c ≠ '\'') : Passes true [c] true := by
  intro rest
  simp [closeAt?, hc]

theorem plain {c : Char} (hc : IsPlain c) : Passes false [c] false := by
  intro rest
  simp [closeAt?, hc.1, hc.2]

theorem of_isPlain {cs : List Char} (hcs : ∀ c ∈ cs, IsPlain c) : Passes false cs false := by
  induction cs with
  | nil => exact nil false
  | cons c cs ih =>
      rw [List.forall_mem_cons] at hcs
      exact (plain hcs.1).cons (ih hcs.2)

/-- The braces behind what is passed over close the expression. -/
theorem closes {cs : List Char} (h : Passes false cs false) (rest : List Char) :
    closeAt? false (cs ++ (closing ++ rest)) = some (cs, rest) := by
  rw [h]
  simp [closing, closeAt?]

end Passes

/-- A kind of character among which are neither quotes nor braces. -/
theorem isPlain_of_kind {kind : Char → Bool} {c : Char} (h : kind c = true)
    (hquote : kind '\'' = false) (hbrace : kind '\x7d' = false) : IsPlain c := by
  constructor
  · rintro rfl
    exact Bool.false_ne_true (hquote.symm.trans h)
  · rintro rfl
    exact Bool.false_ne_true (hbrace.symm.trans h)

theorem isPlain_of_continuesNumber {before : Option Char} {c : Char}
    (h : continuesNumber before c = true) : IsPlain c :=
  isPlain_of_kind h (by simp [continuesNumber]) (by simp [continuesNumber])

/-! ### Tokens -/

/-- A literal is passed over from behind its opening quote to behind its closing one. -/
theorem passes_of_quoted? {cs s after : List Char} (h : quoted? cs = some (s, after)) :
    ∃ body, cs = body ++ after ∧ Passes true body false := by
  induction cs using quoted?.induct generalizing s with
  | case1 => cases h
  | case2 =>
      cases h
      exact ⟨['\''], rfl, .quote true⟩
  | case3 rest ih =>
      rw [quoted?, Option.map_eq_some_iff] at h
      obtain ⟨⟨s', after'⟩, hrest, hs⟩ := h
      cases hs
      obtain ⟨body, rfl, hbody⟩ := ih hrest
      exact ⟨'\'' :: '\'' :: body, rfl, .cons (.quote true) (.cons (.quote false) hbody)⟩
  | case4 rest hend hdoubled =>
      -- A quote with no other behind it: the literal ends, and the flag is turned for good.
      rw [quoted?, if_pos rfl] at h
      · cases h
        exact ⟨['\''], rfl, .quote true⟩
      · exact fun _ => hend rfl
      · exact fun more _ => hdoubled more rfl
  | case5 c rest hend hdoubled hc ih =>
      rw [quoted?, if_neg hc, Option.map_eq_some_iff] at h
      · obtain ⟨⟨s', after'⟩, hrest, hs⟩ := h
        cases hs
        obtain ⟨body, rfl, hbody⟩ := ih hrest
        exact ⟨c :: body, rfl, .cons (.within hc) hbody⟩
      · exact hend
      · exact hdoubled

/-- A reader took some characters from the start of a text, and the scanner passes over them. -/
def Takes (cs after : List Char) : Prop :=
  ∃ body, body ≠ [] ∧ cs = body ++ after ∧ Passes false body false

theorem Takes.of_isPlain {body cs after : List Char} (hne : body ≠ []) (hcs : cs = body ++ after)
    (hbody : ∀ c ∈ body, IsPlain c) : Takes cs after :=
  ⟨body, hne, hcs, .of_isPlain hbody⟩

theorem takes_of_pair {first second : Char} {both : Symbol} {alone : Option Symbol}
    {rest after : List Char} {t : Token} (h : pair second both alone rest = .ok (t, after))
    (hfirst : IsPlain first) (hsecond : IsPlain second) : Takes (first :: rest) after := by
  have hone : rest = after → Takes (first :: rest) after := fun heq =>
    .of_isPlain (List.cons_ne_nil first []) (by rw [heq]; rfl) (by simpa using hfirst)
  unfold pair at h
  split at h
  · split at h
    · next heq =>
      cases h
      subst heq
      have hboth : ∀ c ∈ [first, _], IsPlain c := List.forall_mem_cons.mpr
        ⟨hfirst, List.forall_mem_singleton.mpr hsecond⟩
      exact .of_isPlain (List.cons_ne_nil first _) rfl hboth
    · split at h
      · cases h
        exact hone rfl
      · cases h
  · cases h
    exact hone rfl
  · cases h

/-- The text of a number and what follows it. -/
theorem numeral_append (before : Option Char) (cs : List Char) :
    (numeral before cs).1 ++ (numeral before cs).2 = cs ∧
      ∀ c ∈ (numeral before cs).1, IsPlain c := by
  induction cs generalizing before with
  | nil => simp [numeral]
  | cons c cs ih =>
      rw [numeral]
      split
      · next h =>
        obtain ⟨happend, hplain⟩ := ih (some c)
        exact ⟨congrArg (c :: ·) happend,
          List.forall_mem_cons.mpr ⟨isPlain_of_continuesNumber h, hplain⟩⟩
      · exact ⟨rfl, nofun⟩

theorem takes_of_number {cs after : List Char} {t : Token} (h : number cs = .ok (t, after)) :
    Takes cs after := by
  obtain ⟨happend, hplain⟩ := numeral_append none cs
  rw [number] at h
  dsimp only at h
  split at h
  · next n hn =>
    cases h
    refine .of_isPlain (fun hnil => ?_) happend.symm hplain
    rw [hnil] at hn
    cases hn
  · cases h

/-- **A token is passed over.** -/
theorem takes_of_lexeme {c : Char} {rest after : List Char} {t : Token}
    (h : lexeme c rest = .ok (t, after)) : Takes (c :: rest) after := by
  have hone {d : Char} (hd : IsPlain d) : Takes (d :: rest) rest :=
    .of_isPlain (List.cons_ne_nil d []) rfl (by simpa using hd)
  unfold lexeme at h
  split at h
  -- Literals are the only tokens with quotes in them; the others are plain throughout.
  case h_12 =>
    split at h
    · next s after' hquoted =>
      cases h
      obtain ⟨body, rfl, hbody⟩ := passes_of_quoted? hquoted
      exact ⟨'\'' :: body, List.cons_ne_nil _ _, rfl, .cons (.quote false) hbody⟩
    · cases h
  case h_13 =>
    split at h
    · exact takes_of_number h
    · cases h
      exact hone (by decide)
  case h_14 =>
    split at h
    · exact takes_of_number h
    · split at h
      · next hbegins =>
        cases h
        have hplain : ∀ d ∈ c :: rest.takeWhile continuesName, IsPlain d :=
          List.forall_mem_cons.mpr ⟨isPlain_of_kind hbegins (by decide) (by decide),
            fun d hd => isPlain_of_kind (List.mem_takeWhile_imp hd) (by decide) (by decide)⟩
        refine .of_isPlain (List.cons_ne_nil c _) ?_ hplain
        rw [List.cons_append, List.takeWhile_append_dropWhile]
      · cases h
  case h_6 | h_7 | h_8 | h_9 | h_10 | h_11 => exact takes_of_pair h (by decide) (by decide)
  all_goals
    cases h
    exact hone (by decide)

/-- **What is cut into tokens is passed over.** The characters that are left grow fewer with every
token, so that the bound on their number lasts. -/
theorem passes_of_tokens {n position : Nat} {cs : List Char} {ts : List Token}
    (h : tokens n position cs = .ok ts) (hn : cs.length < n) : Passes false cs false := by
  induction n generalizing position cs ts with
  | zero => omega
  | succ n ih =>
      have hblanks : Passes false (cs.takeWhile Text.isBlank) false :=
        .of_isPlain fun c hc =>
          isPlain_of_kind (List.mem_takeWhile_imp hc) (by decide) (by decide)
      have hsplit : cs.takeWhile Text.isBlank ++ cs.dropWhile Text.isBlank = cs :=
        List.takeWhile_append_dropWhile
      rw [← hsplit]
      refine hblanks.append ?_
      rw [tokens] at h
      split at h
      · next hnil =>
        rw [hnil]
        exact .nil false
      · next c rest hcons =>
        split at h
        · cases h
        · next token after hlexeme =>
          obtain ⟨more, hmore, -⟩ := bind_eq_ok.mp h
          obtain ⟨body, hne, hbody, hpasses⟩ := takes_of_lexeme hlexeme
          rw [hcons, hbody]
          refine hpasses.append (ih hmore ?_)
          have hlength := congrArg List.length hsplit
          rw [hcons, hbody, List.length_append, List.length_append] at hlength
          have := List.length_pos_iff.mpr hne
          omega

/-! ### Segments -/

/-- The first place where an expression opens: no other opening overlaps with one. -/
theorem cut?_opening {before : List Char} (h : ¬ opening <:+: before) (rest : List Char) :
    Text.cut? opening (before ++ (opening ++ rest)) = some (before, rest) := by
  rw [Text.cut?_append, opening, Text.cut?_cons_append]
  · simp
  · intro back hne hback hstart
    -- An opening that began in the text in front would have a dollar among its braces.
    rcases back with _ | ⟨c, _ | ⟨d, _ | ⟨d', cs⟩⟩⟩
    · exact hne rfl
    · simp [opening] at hstart
    · simp [opening] at hstart
    · obtain ⟨rfl, rfl, rfl⟩ : c = '$' ∧ d = '\x7b' ∧ d' = '\x7b' := by
        simpa [opening, eq_comm] using hstart
      exact h ((List.IsPrefix.isInfix ⟨cs, rfl⟩).trans hback.isInfix)

theorem segmentsFrom_of_not_infix {cs : List Char} (h : ¬ opening <:+: cs) (n position : Nat) :
    segmentsFrom n position cs = .ok (literal cs) := by
  cases n with
  | zero => rfl
  | succ n =>
      have hnone : Text.cut? opening cs = none := by
        rwa [← Text.cut?_isSome, Bool.not_eq_true, Option.isSome_eq_false_iff,
          Option.isNone_iff_eq_none] at h
      rw [segmentsFrom, hnone]

theorem literal_eq_filter (s : String) :
    literal s.toList = [Segment.text s].filter (· ≠ .text "") := by
  by_cases hs : s = ""
  · subst hs
    rfl
  · simp [literal, hs]

/-- An expression that is cut into tokens is the segment between the texts around it. -/
theorem segments_around {e t₁ t₂ : String} {ts : List Token} (he : tokenize e = .ok ts)
    (h₁ : ¬ opening <:+: t₁.toList) (h₂ : ¬ opening <:+: t₂.toList) :
    segments (t₁ ++ "$\x7b\x7b" ++ e ++ "\x7d\x7d" ++ t₂) =
      .ok (literal t₁.toList ++ .expression (Text.trim e) :: literal t₂.toList) := by
  have hchars : (t₁ ++ "$\x7b\x7b" ++ e ++ "\x7d\x7d" ++ t₂).toList =
      t₁.toList ++ (opening ++ (e.toList ++ (closing ++ t₂.toList))) := by
    simp [opening, closing]
  have hpasses : Passes false e.toList false :=
    passes_of_tokens he (by rw [String.length_toList]; exact Nat.lt_succ_self _)
  rw [segments, segmentsFrom, hchars, cut?_opening h₁]
  simp only [hpasses.closes, segmentsFrom_of_not_infix h₂, String.ofList_toList]
  rfl

/-- Alone between the braces, such an expression is a whole one. -/
theorem wholeExpression?_braced {e : String} {ts : List Token} (he : tokenize e = .ok ts) :
    wholeExpression? ("$\x7b\x7b" ++ e ++ "\x7d\x7d") = some (Text.trim e) := by
  have hempty : ¬ opening <:+: "".toList := by decide
  have hsegments : segments ("$\x7b\x7b" ++ e ++ "\x7d\x7d") = .ok [.expression (Text.trim e)] := by
    simpa [literal] using segments_around he hempty hempty
  have hfirst : ("$\x7b\x7b" ++ e ++ "\x7d\x7d").toList =
      '$' :: ("\x7b\x7b" ++ e ++ "\x7d\x7d").toList := by simp
  have hlast : ("$\x7b\x7b" ++ e ++ "\x7d\x7d").toList =
      ("$\x7b\x7b" ++ e ++ "\x7d").toList ++ ['\x7d'] := by simp
  have hopens : (Text.after? opening ("$\x7b\x7b" ++ e ++ "\x7d\x7d").toList).isSome := by
    simp [opening, Text.after?]
  rw [wholeExpression?, Text.trim_eq_self hfirst hlast (by decide) (by decide), if_pos hopens,
    hsegments]

/-- **The two scanners agree on where an expression ends.** Between texts that open no expression,
the characters of any expression that is cut into tokens are one segment, without the blanks around
them, whatever stands in its literals; and alone they are a whole expression. -/
theorem segments_of_tokenize {e t₁ t₂ : String} {ts : List Token} (he : tokenize e = .ok ts)
    (h₁ : ¬ opening <:+: t₁.toList) (h₂ : ¬ opening <:+: t₂.toList) :
    segments (t₁ ++ "$\x7b\x7b" ++ e ++ "\x7d\x7d" ++ t₂) =
        .ok ([.text t₁, .expression (Text.trim e), .text t₂].filter (· ≠ .text "")) ∧
      wholeExpression? ("$\x7b\x7b" ++ e ++ "\x7d\x7d") = some (Text.trim e) := by
  refine ⟨?_, wholeExpression?_braced he⟩
  rw [segments_around he h₁ h₂, literal_eq_filter, literal_eq_filter,
    ← List.filter_cons_of_pos (by simp), ← List.filter_append]
  rfl

/-- A literal with both kinds of braces and a doubled quote, behind a text and in front of none. -/
theorem segments_of_tokenize_braces :
    segments ("on " ++ "$\x7b\x7b" ++ " eq(a, '$\x7b\x7b it''s \x7d\x7d') " ++ "\x7d\x7d" ++ "") =
        .ok [.text "on ", .expression "eq(a, '$\x7b\x7b it''s \x7d\x7d')"] ∧
      wholeExpression? ("$\x7b\x7b" ++ " eq(a, '$\x7b\x7b it''s \x7d\x7d') " ++ "\x7d\x7d") =
        some "eq(a, '$\x7b\x7b it''s \x7d\x7d')" := by
  have htokens : tokenize " eq(a, '$\x7b\x7b it''s \x7d\x7d') " = .ok
      [.name "eq", .symbol .openParen, .name "a", .symbol .comma, .text "$\x7b\x7b it's \x7d\x7d",
        .symbol .closeParen] := by rfl
  exact segments_of_tokenize htokens (by decide) (by decide)

end PipelineExpansion.Expression
