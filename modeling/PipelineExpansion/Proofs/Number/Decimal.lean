import PipelineExpansion.Number.Decimal
import PipelineExpansion.Proofs.Text.RegularExpression

/-!
# Reading decimal numbers

The value of decimal digits is the number that they are written for (`digitsValue_toDigits`), with zeros in
front or without (`digitsValue_replicate_append`).

Apart from the words for infinity and for no number at all, the texts that `Binary64.ofString?` reads are
those of one pattern (`isSome_ofString?`). The reader takes what it finds from the left: a sign, the digits
of the mantissa, the exponent. Since no mantissa can be continued by an exponent, it divides a text as the
pattern does.
-/

namespace PipelineExpansion.Binary64

open RegularExpression (char)
open Text

variable {c : Char} {cs ds m rest : List Char} {r : RegularExpression Char}

/-! ### Digits -/

theorem digitsValue_eq_ofDigitChars (digits : List Char) :
    digitsValue digits = Nat.ofDigitChars 10 digits 0 := by
  simp only [digitsValue, Nat.ofDigitChars, Nat.mul_comm]

@[simp] theorem digitsValue_toDigits (n : Nat) : digitsValue (Nat.toDigits 10 n) = n := by
  rw [digitsValue_eq_ofDigitChars]
  simp

/-- Zeros in front do not count. -/
@[simp] theorem digitsValue_replicate_append (zeros : Nat) (digits : List Char) :
    digitsValue (List.replicate zeros '0' ++ digits) = digitsValue digits := by
  induction zeros with
  | zero => rfl
  | succ zeros ih => exact ih

/-! ### The pattern -/

namespace Pattern

/-- The ten digits. -/
def digits : List Char := ['0', '1', '2', '3', '4', '5', '6', '7', '8', '9']

/-- A digit. -/
def digit : RegularExpression Char := oneOf digits

/-- A plus or a minus. -/
def sign : RegularExpression Char := oneOf ['-', '+']

/-- Digits with a point in front of them, among them or behind them, or none. -/
def mantissa : RegularExpression Char :=
  char '.' * several digit + several digit * optional (char '.' * digit.star)

/-- An exponent. -/
def exponent : RegularExpression Char := oneOf ['e', 'E'] * (optional sign * several digit)

/-- A decimal number. -/
def decimal : RegularExpression Char := optional sign * (mantissa * optional exponent)

end Pattern

theorem isDigit_iff_mem : c.isDigit = true ↔ c ∈ Pattern.digits := by
  constructor
  · intro h
    have hrange := Char.isDigit_iff_toNat.mp h
    simp only [Pattern.digits, List.mem_cons, List.not_mem_nil, or_false, ← Char.toNat_inj,
      Char.reduceToNat] at hrange ⊢
    omega
  · have hdigits : ∀ c ∈ Pattern.digits, c.isDigit = true := forall_mem_of_all (by decide)
    exact hdigits c

theorem mem_several_digit :
    cs ∈ (several Pattern.digit).matches' ↔ cs ≠ [] ∧ ∀ c ∈ cs, c.isDigit = true := by
  simp only [Pattern.digit, mem_several_oneOf, isDigit_iff_mem]

/-! ### Signs -/

/-- A text begins with a minus, with a plus, or with no sign. -/
theorem sign_cases (cs : List Char) :
    (∃ rest, cs = '-' :: rest) ∨ (∃ rest, cs = '+' :: rest) ∨ ∀ c ∈ cs.head?, c ∉ ['-', '+'] := by
  by_cases hminus : cs.head? = some '-'
  · obtain ⟨rest, rfl⟩ := List.head?_eq_some_iff.mp hminus
    exact .inl ⟨rest, rfl⟩
  · by_cases hplus : cs.head? = some '+'
    · obtain ⟨rest, rfl⟩ := List.head?_eq_some_iff.mp hplus
      exact .inr (.inl ⟨rest, rfl⟩)
    · refine .inr (.inr fun c hc hsign => ?_)
      simp only [List.mem_cons, List.not_mem_nil, or_false] at hsign
      obtain rfl | rfl := hsign
      · exact hminus hc
      · exact hplus hc

theorem signed_of_head {cs : List Char} (h : ∀ c ∈ cs.head?, c ∉ ['-', '+']) :
    signed cs = (false, cs) := by
  rw [signed]
  · rintro rest rfl
    exact h '-' rfl (by decide)
  · rintro rest rfl
    exact h '+' rfl (by decide)

/-- Where nothing that matches begins with a sign, taking a sign off is all there is to an optional one. -/
theorem mem_optional_sign_mul (h : ∀ c ∈ firsts r, c ∉ ['-', '+']) :
    cs ∈ (optional Pattern.sign * r).matches' ↔ (signed cs).2 ∈ r.matches' := by
  rw [mem_optional_mul, Pattern.sign, mem_oneOf_mul]
  constructor
  · rintro (hcs | ⟨c, hc, y, hy, rfl⟩)
    · rw [signed_of_head]
      · exact hcs
      · intro c hc
        obtain ⟨rest, rfl⟩ := List.head?_eq_some_iff.mp hc
        exact h c (mem_firsts hcs)
    · simp only [List.mem_cons, List.not_mem_nil, or_false] at hc
      obtain rfl | rfl := hc
      · exact hy
      · exact hy
  · intro hcs
    obtain ⟨rest, rfl⟩ | ⟨rest, rfl⟩ | hhead := sign_cases cs
    · exact .inr ⟨'-', by decide, rest, hcs, rfl⟩
    · exact .inr ⟨'+', by decide, rest, hcs, rfl⟩
    · rw [signed_of_head hhead] at hcs
      exact .inl hcs

/-! ### Exponents -/

theorem isSome_exponent :
    (exponent cs).isSome = true ↔ cs ∈ (optional Pattern.exponent).matches' := by
  rw [mem_optional]
  cases cs with
  | nil => exact iff_of_true rfl (.inl rfl)
  | cons c rest =>
      have hdigits : (signed rest).2 ∈ (several Pattern.digit).matches'
          ↔ rest ∈ (optional Pattern.sign * several Pattern.digit).matches' :=
        (mem_optional_sign_mul (forall_mem_of_all (by decide))).symm
      rw [mem_several_digit] at hdigits
      simp only [exponent, Pattern.exponent, mem_oneOf_mul]
      grind

/-! ### Mantissas -/

theorem mem_star_digit : cs ∈ Pattern.digit.star.matches' ↔ ∀ c ∈ cs, c.isDigit = true := by
  simp only [Pattern.digit, mem_star_oneOf, isDigit_iff_mem]

theorem mem_mantissa :
    m ∈ Pattern.mantissa.matches' ↔ ∃ whole part, (∀ c ∈ whole ++ part, c.isDigit = true)
      ∧ (whole ≠ [] ∧ part = [] ∧ m = whole ∨ whole ++ part ≠ [] ∧ m = whole ++ '.' :: part) := by
  simp only [Pattern.mantissa, mem_add, mem_char_mul, mem_mul (r := several Pattern.digit), mem_optional,
    mem_star_digit, mem_several_digit]
  constructor
  · rintro (⟨part, ⟨hne, hpart⟩, rfl⟩ | ⟨whole, ⟨hne, hwhole⟩, _, rfl | ⟨part, hpart, rfl⟩, rfl⟩)
    · exact ⟨[], part, hpart, .inr ⟨hne, rfl⟩⟩
    · exact ⟨whole, [], by simpa using hwhole, .inl ⟨hne, rfl, List.append_nil whole⟩⟩
    · exact ⟨whole, part, List.forall_mem_append.mpr ⟨hwhole, hpart⟩, .inr ⟨by simp [hne], rfl⟩⟩
  · rintro ⟨whole, part, hdigits, ⟨hne, rfl, rfl⟩ | ⟨hne, rfl⟩⟩
    · exact .inr ⟨m, ⟨hne, by simpa using hdigits⟩, [], .inl rfl, List.append_nil m⟩
    · obtain ⟨hwhole, hpart⟩ := List.forall_mem_append.mp hdigits
      cases whole with
      | nil => exact .inl ⟨part, ⟨hne, hpart⟩, rfl⟩
      | cons c whole =>
          exact .inr ⟨c :: whole, ⟨List.cons_ne_nil c whole, hwhole⟩, _, .inr ⟨part, hpart, rfl⟩, rfl⟩

/-- What is read as a mantissa is one, and the rest of the text is left. -/
theorem mem_of_mantissa {n : Nat} (h : mantissa cs = some (ds, n, rest)) :
    ∃ m ∈ Pattern.mantissa.matches', m ++ rest = cs := by
  have hdigits (cs : List Char) : ∀ c ∈ cs.takeWhile Char.isDigit, c.isDigit = true :=
    List.all_eq_true.mp List.all_takeWhile
  have hcs : cs.takeWhile Char.isDigit ++ cs.dropWhile Char.isDigit = cs :=
    List.takeWhile_append_dropWhile
  simp only [mantissa] at h
  split at h
  · next tail htail =>
    simp only [Option.ite_none_left_eq_some, Option.some.injEq, Prod.mk.injEq] at h
    obtain ⟨hne, -, -, rfl⟩ := h
    refine ⟨_, mem_mantissa.mpr ⟨_, _, List.forall_mem_append.mpr ⟨hdigits cs, hdigits tail⟩,
      .inr ⟨by simpa using hne, rfl⟩⟩, ?_⟩
    rw [List.append_assoc, List.cons_append, List.takeWhile_append_dropWhile, ← htail, hcs]
  · simp only [Option.ite_none_left_eq_some, Option.some.injEq, Prod.mk.injEq] at h
    obtain ⟨hne, -, -, rfl⟩ := h
    exact ⟨_, mem_mantissa.mpr ⟨_, [], by simpa using hdigits cs, .inl ⟨by simpa using hne, rfl, rfl⟩⟩, hcs⟩

/-- Digits are taken off up to what is no digit. -/
theorem takeWhile_isDigit_append (h : ∀ c ∈ ds, c.isDigit = true)
    (hrest : ∀ c ∈ rest.head?, c.isDigit = false) :
    (ds ++ rest).takeWhile Char.isDigit = ds ∧ (ds ++ rest).dropWhile Char.isDigit = rest := by
  rw [List.takeWhile_append_of_pos h, List.dropWhile_append_of_pos h]
  cases rest with
  | nil => exact ⟨List.append_nil ds, rfl⟩
  | cons c rest => simp [hrest c rfl]

/-- A mantissa is read up to the end, if what follows does not continue it. -/
theorem mantissa_append (hm : m ∈ Pattern.mantissa.matches')
    (hrest : ∀ c ∈ rest.head?, c.isDigit = false ∧ c ≠ '.') :
    ∃ ds n, mantissa (m ++ rest) = some (ds, n, rest) := by
  have hdigit : ∀ c ∈ rest.head?, c.isDigit = false := fun c hc => (hrest c hc).1
  obtain ⟨whole, part, hdigits, ⟨hne, rfl, rfl⟩ | ⟨hne, rfl⟩⟩ := mem_mantissa.mp hm
  · rw [List.append_nil] at hdigits
    obtain ⟨htake, hdrop⟩ := takeWhile_isDigit_append hdigits hdigit
    have hpoint : ∀ tail, rest ≠ '.' :: tail := by
      rintro tail rfl
      exact (hrest '.' rfl).2 rfl
    refine ⟨m, 0, ?_⟩
    simp only [mantissa, htake, hdrop]
    simp [hne]
  · obtain ⟨hwhole, hpart⟩ := List.forall_mem_append.mp hdigits
    obtain ⟨htake, hdrop⟩ :=
      @takeWhile_isDigit_append whole ('.' :: (part ++ rest)) hwhole (by simp)
    obtain ⟨htake', hdrop'⟩ := takeWhile_isDigit_append hpart hdigit
    refine ⟨whole ++ part, part.length, ?_⟩
    rw [List.append_assoc, List.cons_append]
    simp only [mantissa, htake, hdrop, htake', hdrop']
    simpa using hne

/-! ### Numbers -/

/-- A number is read up to the end of a text where its mantissa and its exponent are all that it has. -/
theorem exists_mantissa_exponent :
    (∃ ds n rest, mantissa cs = some (ds, n, rest) ∧ (exponent rest).isSome = true)
      ↔ cs ∈ (Pattern.mantissa * optional Pattern.exponent).matches' := by
  rw [mem_mul]
  constructor
  · rintro ⟨ds, n, rest, hmantissa, hexponent⟩
    obtain ⟨m, hm, rfl⟩ := mem_of_mantissa hmantissa
    exact ⟨m, hm, rest, isSome_exponent.mp hexponent, rfl⟩
  · rintro ⟨m, hm, rest, hrest, rfl⟩
    have hfirsts : ∀ c ∈ firsts (optional Pattern.exponent), c.isDigit = false ∧ c ≠ '.' :=
      forall_mem_of_all (by decide)
    have hhead : ∀ c ∈ rest.head?, c.isDigit = false ∧ c ≠ '.' := by
      intro c hc
      obtain ⟨tail, rfl⟩ := List.head?_eq_some_iff.mp hc
      exact hfirsts c (mem_firsts hrest)
    obtain ⟨ds, n, hmantissa⟩ := mantissa_append hm hhead
    exact ⟨ds, n, rest, hmantissa, isSome_exponent.mpr hrest⟩

/-- The words that are read without a mantissa, in any case. -/
def words : List String := ["inf", "infinity", "nan"]

/-- **A text is read as a number where it is a decimal number, or one of the words after a sign.** -/
theorem isSome_ofString? {s : String} :
    (ofString? s).isSome = true
      ↔ String.ofList ((signed s.toList).2.map Char.toLower) ∈ words ∨ Matches Pattern.decimal s := by
  rw [Matches, Pattern.decimal, mem_optional_sign_mul (forall_mem_of_all (by decide)),
    ← exists_mantissa_exponent]
  simp only [ofString?]
  split
  · next h => exact iff_of_true rfl (.inl (by rw [h]; decide))
  · next h => exact iff_of_true rfl (.inl (by rw [h]; decide))
  · next h => exact iff_of_true rfl (.inl (by rw [h]; decide))
  · next hinf hinfinity hnan =>
    have hword : String.ofList ((signed s.toList).2.map Char.toLower) ∉ words := by
      simp only [words, List.mem_cons, List.not_mem_nil, or_false, not_or]
      exact ⟨hinf, hinfinity, hnan⟩
    rw [or_iff_right hword]
    simp only [Option.isSome_iff_exists, bind, pure, Option.bind_eq_some_iff, Option.some.injEq,
      Prod.exists]
    constructor
    · rintro ⟨_, ds, n, rest, hmantissa, e, hexponent, -⟩
      exact ⟨ds, n, rest, hmantissa, e, hexponent⟩
    · rintro ⟨ds, n, rest, hmantissa, e, hexponent⟩
      exact ⟨_, ds, n, rest, hmantissa, e, hexponent, rfl⟩

end PipelineExpansion.Binary64
