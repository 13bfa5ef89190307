import PipelineExpansion.Proofs.Expression.Operators
import PipelineExpansion.Proofs.Number.Decimal
import PipelineExpansion.Proofs.Text.Letter

/-!
# Formats say what they were written for

A format is written part by part: a literal with its braces doubled, a placeholder as the number of its
argument in braces. Cutting it into pieces finds the parts again, wherever braces of the one meet braces of the
other. A doubled brace is taken off as one piece, so it cannot become half of another pair; and a
placeholder begins with a brace that a digit follows, and ends at the first closing brace, which is its own.

The budget of the cutting is the number of characters, and every piece takes at least one.

## Main results

* `formatPieces_template`: the pieces of a format are those of its parts.
* `format_template`: calling `format` yields the literals and the texts of the arguments, in order.
-/

namespace PipelineExpansion.Expression.Function

open Template (Origin)

variable {n k : Nat} {f : String} {args : List Value} {rest : List Char}

/-- A part of a format for `n` arguments. The number of an argument may have zeros in front. -/
inductive FormatPart (n : Nat) where
  | literal (text : String)
  | argument (zeros : Nat) (i : Fin n)

/-- Characters with the braces among them doubled. -/
def doubledBraces (cs : List Char) : List Char :=
  cs.flatMap fun c => if c = '\x7b' ∨ c = '\x7d' then [c, c] else [c]

namespace FormatPart

/-- The digits in a placeholder. -/
def digits (zeros : Nat) (i : Fin n) : List Char := List.replicate zeros '0' ++ Nat.toDigits 10 i

/-- A part as it is written. -/
def written : FormatPart n → List Char
  | literal text => doubledBraces text.toList
  | argument zeros i => '\x7b' :: (digits zeros i ++ ['\x7d'])

/-- The pieces that a part is cut into. -/
def pieces : FormatPart n → List Piece
  | literal text => text.toList.map .char
  | argument zeros i => [.placeholder (digits zeros i)]

/-- The text that a part stands for. -/
def shown (args : List Value) : FormatPart args.length → String
  | literal text => text
  | argument _ i => args[i].display?.getD ""

end FormatPart

open FormatPart (digits)

/-- The format that is written part by part. -/
def template (parts : List (FormatPart n)) : String :=
  String.ofList (parts.flatMap FormatPart.written)

/-! ### Cutting -/

theorem formatPieces_doubled {c : Char} (h : c = '\x7b' ∨ c = '\x7d') (k : Nat) (rest : List Char) :
    formatPieces (k + 1) (c :: c :: rest) = .char c :: formatPieces k rest := by
  rcases h with rfl | rfl <;> rfl

theorem formatPieces_plain {c : Char} (h : ¬ (c = '\x7b' ∨ c = '\x7d')) (k : Nat)
    (rest : List Char) : formatPieces (k + 1) (c :: rest) = .char c :: formatPieces k rest := by
  rw [not_or] at h
  rw [formatPieces.eq_def]
  simp only [if_neg h.1, if_neg h.2]

/-- A placeholder that begins with no brace ends at the next closing one. -/
theorem formatPieces_placeholder {body : List Char} (hbegin : body.head? ≠ some '\x7b')
    (hend : ∀ c ∈ body, c ≠ '\x7d') (k : Nat) (rest : List Char) :
    formatPieces (k + 1) ('\x7b' :: (body ++ '\x7d' :: rest)) =
      .placeholder body :: formatPieces k rest := by
  have hbody : ∀ c ∈ body, decide (c ≠ '\x7d') = true := fun c hc => decide_eq_true (hend c hc)
  have htake : (body ++ '\x7d' :: rest).takeWhile (· ≠ '\x7d') = body := by
    rw [List.takeWhile_append_of_pos hbody]
    simp
  have hdrop : (body ++ '\x7d' :: rest).dropWhile (· ≠ '\x7d') = '\x7d' :: rest := by
    rw [List.dropWhile_append_of_pos hbody]
    simp
  rw [formatPieces.eq_def]
  simp only [if_true]
  split
  · next inner h =>
    cases body with
    | nil => cases h
    | cons c cs => exact absurd (congrArg some (List.cons.inj h).1) hbegin
  · rw [htake, hdrop]
    rfl

theorem isDigit_of_mem_digits (zeros : Nat) (i : Fin n) : ∀ c ∈ digits zeros i, c.isDigit = true := by
  intro c hc
  rcases List.mem_append.mp hc with hzero | hdigit
  · rw [(List.mem_replicate.mp hzero).2]
    rfl
  · exact Nat.isDigit_of_mem_toDigits (by decide) (by decide) hdigit

theorem formatPieces_literal (cs : List Char) (h : (doubledBraces cs ++ rest).length ≤ k) :
    ∃ k', rest.length ≤ k' ∧
      formatPieces k (doubledBraces cs ++ rest) = cs.map .char ++ formatPieces k' rest := by
  induction cs generalizing k with
  | nil => exact ⟨k, h, rfl⟩
  | cons c cs ih =>
      rw [doubledBraces, List.flatMap_cons, ← doubledBraces, List.append_assoc] at h ⊢
      obtain ⟨k, rfl⟩ : ∃ m, k = m + 1 := Nat.exists_eq_succ_of_ne_zero (by
        split at h <;> simp at h <;> omega)
      split at h
      · next hbrace =>
        obtain ⟨k', hk', hpieces⟩ := ih (k := k) (by simp at h ⊢; omega)
        refine ⟨k', hk', ?_⟩
        rw [if_pos hbrace]
        change formatPieces (k + 1) (c :: c :: (doubledBraces cs ++ rest)) = _
        rw [formatPieces_doubled hbrace, hpieces]
        rfl
      · next hplain =>
        obtain ⟨k', hk', hpieces⟩ := ih (k := k) (by simpa using h)
        refine ⟨k', hk', ?_⟩
        rw [if_neg hplain]
        change formatPieces (k + 1) (c :: (doubledBraces cs ++ rest)) = _
        rw [formatPieces_plain hplain, hpieces]
        rfl

/-- The first part is found whatever is written behind it. -/
theorem formatPieces_written (p : FormatPart n) (h : (p.written ++ rest).length ≤ k) :
    ∃ k', rest.length ≤ k' ∧
      formatPieces k (p.written ++ rest) = p.pieces ++ formatPieces k' rest := by
  cases p with
  | literal text => exact formatPieces_literal text.toList h
  | argument zeros i =>
      have hdigits := isDigit_of_mem_digits zeros i
      rw [FormatPart.written, List.cons_append, List.append_assoc, List.singleton_append] at h ⊢
      obtain ⟨k, rfl⟩ : ∃ m, k = m + 1 := Nat.exists_eq_succ_of_ne_zero (by simp at h; omega)
      refine ⟨k, by simp at h; omega, formatPieces_placeholder ?_ ?_ k rest⟩
      · intro hhead
        exact absurd (hdigits _ (List.mem_of_mem_head? hhead)) (by decide)
      · rintro c hc rfl
        exact absurd (hdigits _ hc) (by decide)

/-- **The pieces of a format are those of its parts.** -/
theorem formatPieces_template (parts : List (FormatPart n))
    (h : (parts.flatMap FormatPart.written).length ≤ k) :
    formatPieces k (parts.flatMap FormatPart.written) = parts.flatMap FormatPart.pieces := by
  induction parts generalizing k with
  | nil => cases k <;> rfl
  | cons p parts ih =>
      rw [List.flatMap_cons] at h ⊢
      obtain ⟨k', hk', hpieces⟩ := formatPieces_written p h
      rw [hpieces, ih hk', List.flatMap_cons]

/-! ### The texts of the pieces -/

/-- The digits of a placeholder are read as the number of its argument. -/
theorem placeholderIndex?_digits (zeros : Nat) (i : Fin n) (h : i.val < Nat.pow 2 64) :
    placeholderIndex? (digits zeros i) = some i.val := by
  have hdigits := isDigit_of_mem_digits zeros i
  have hne : digits zeros i ≠ [] := by simp [digits, Nat.toDigits_ne_nil]
  have hvalue : Binary64.digitsValue (digits zeros i) = i := by simp [digits]
  have hall : (digits zeros i).all Char.isDigit = true := List.all_eq_true.mpr hdigits
  rw [placeholderIndex?, Text.dropBlanks_of_isDigit hdigits]
  split
  · next rest hplus =>
    rw [hplus] at hdigits
    exact absurd (hdigits '+' List.mem_cons_self) (by decide)
  · simp only [hall, hvalue, List.isEmpty_eq_false_iff.mpr hne, Bool.not_true, Bool.or_self,
      Bool.false_eq_true, if_false, if_pos h]

theorem exists_display?_of_isScalar {v : Value} (h : v.isScalar = true) : ∃ s, v.display? = some s := by
  cases v with
  | sequence | mapping => cases h
  | _ => exact ⟨_, rfl⟩

/-- The texts of the pieces of a part make up what the part stands for. -/
theorem mapM_pieceText_pieces (format : Value) (hargs : ∀ a ∈ args, a.isScalar = true)
    (hlen : args.length < Nat.pow 2 64) (p : FormatPart args.length) :
    ∃ texts, p.pieces.mapM (pieceText (format :: args)) = .ok texts ∧
      String.join texts = p.shown args := by
  cases p with
  | literal text =>
      refine ⟨text.toList.map Char.toString, ?_, by
        simp [FormatPart.shown, ← String.toList_inj, List.flatMap_map, Char.toString]⟩
      rw [FormatPart.pieces]
      induction text.toList with
      | nil => rfl
      | cons c cs ih =>
          rw [List.map_cons, List.mapM_cons, ih]
          rfl
  | argument zeros i =>
      obtain ⟨s, hs⟩ := exists_display?_of_isScalar (hargs args[i] (List.getElem_mem i.isLt))
      have hmod : (i.val + 1) % Nat.pow 2 64 = i.val + 1 := Nat.mod_eq_of_lt (by omega)
      have htext : pieceText (format :: args) (.placeholder (digits zeros i)) = .ok s := by
        rw [pieceText, placeholderIndex?_digits zeros i (by omega), Option.bind_some, hmod,
          List.getElem?_cons_succ, List.getElem?_eq_getElem i.isLt]
        change textOf "format" args[i] = .ok s
        rw [textOf, hs]
      refine ⟨[s], ?_, ?_⟩
      · rw [FormatPart.pieces, List.mapM_cons, htext]
        rfl
      · rw [FormatPart.shown, hs]
        simp

theorem mapM_pieceText_template (format : Value) (hargs : ∀ a ∈ args, a.isScalar = true)
    (hlen : args.length < Nat.pow 2 64) (parts : List (FormatPart args.length)) :
    ∃ texts, (parts.flatMap FormatPart.pieces).mapM (pieceText (format :: args)) = .ok texts ∧
      String.join texts = String.join (parts.map (·.shown args)) := by
  induction parts with
  | nil => exact ⟨[], rfl, rfl⟩
  | cons p parts ih =>
      obtain ⟨own, hown, hshown⟩ := mapM_pieceText_pieces format hargs hlen p
      obtain ⟨more, hmore, hjoin⟩ := ih
      refine ⟨own ++ more, ?_, ?_⟩
      · rw [List.flatMap_cons, List.mapM_append, hown, hmore]
        rfl
      · rw [String.join_append, hshown, hjoin, List.map_cons, String.join_cons]

/-- **A format says what it was written for**: called with the format that doubles the braces of literals and
names arguments by their numbers, `format` yields the literals and the texts of these arguments, in order.
The number of a placeholder has 64 bits, and so has the length of an argument list. -/
theorem format_template (hf : Text.sameName f "format" = true) (o : Origin)
    (hargs : ∀ a ∈ args, a.isScalar = true) (hlen : args.length < Nat.pow 2 64)
    (parts : List (FormatPart args.length)) :
    call f (.text o (template parts) :: args) =
      .ok (.ofText (String.join (parts.map (·.shown args)))) := by
  obtain ⟨texts, htexts, hjoin⟩ :=
    mapM_pieceText_template (.text o (template parts)) hargs hlen parts
  have hpieces : formatPieces (template parts).length (template parts).toList =
      parts.flatMap FormatPart.pieces := by
    rw [template, String.length_ofList, String.toList_ofList]
    exact formatPieces_template parts (Nat.le_refl _)
  have hformatted : formatted (.text o (template parts)) args = .ok (String.join texts) := by
    change (do
      let parts ← (formatPieces (template parts).length (template parts).toList).mapM
        (pieceText (.text o (template parts) :: args))
      return String.join parts) = _
    rw [hpieces, htexts]
    rfl
  rw [call_eq_apply .format hf rfl, ← hjoin]
  change (formatted (.text o (template parts)) args >>= fun s =>
    pure (Template.Token.ofText s)) = _
  rw [hformatted]
  rfl

/-- Braces of literals on both sides of a placeholder. -/
theorem format_template_bracesAround :
    call "Format" [.ofText "\x7b\x7b\x7b01\x7d\x7d\x7d\x7d\x7d\x7b0\x7d", .ofBool true, .ofText "\x7b0\x7d"] =
      .ok (.ofText "\x7b\x7b0\x7d\x7d\x7dtrue") :=
  @format_template "Format" [.ofBool true, .ofText "\x7b0\x7d"] (by decide) .unknown
    (by decide) (by decide)
    [.literal "\x7b", .argument 1 1, .literal "\x7d\x7d", .argument 0 0]

end PipelineExpansion.Expression.Function
