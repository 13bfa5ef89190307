import Mathlib.Data.Nat.Digits.Defs
import PipelineExpansion.Proofs.Number.Decimal
import PipelineExpansion.Proofs.Text.FreshName
import PipelineExpansion.Template.Token.Load

/-!
# Scalars and the core schema

The core schema of YAML says by regular expressions which plain scalars are null, truth values and numbers.
`Token.ofScalar` follows it but for two kinds of texts: some of the numbers of the schema are overlooked
(`CoreSchema.Overlooked`), and whole numbers in another base may have a sign (`CoreSchema.Overread`).

## Main results

* `ofScalar_coreSchema`: what each scalar becomes, plain or quoted.
* `matches_number_of_overlooked`, `not_matches_number_of_overread`: the texts of the two kinds are departures
  from the schema.
-/

namespace PipelineExpansion.Template

open Text
open Binary64 (signed)

/-! ### The schema -/

/-- The bases other than ten that a whole number can be written in. -/
inductive Radix where
  | octal
  | hexadecimal

namespace Radix

def base : Radix → Nat
  | octal => 8
  | hexadecimal => 16

/-- The letter that tells the base. -/
def letter : Radix → Char
  | octal => 'o'
  | hexadecimal => 'x'

def digits : Radix → List Char
  | octal => ['0', '1', '2', '3', '4', '5', '6', '7']
  | hexadecimal => Binary64.Pattern.digits ++ ['a', 'b', 'c', 'd', 'e', 'f', 'A', 'B', 'C', 'D', 'E', 'F']

/-- The value of a digit: its place among the digits. -/
def weight (c : Char) : Nat := "0123456789abcdef".toList.idxOf c.toLower

/-- The value of digits. -/
def value (r : Radix) (ds : List Char) : Nat := Nat.ofDigits r.base (ds.reverse.map weight)

/-- What a whole number in a base begins with. -/
def mark (r : Radix) : String := String.ofList ['0', r.letter]

/-- One or more digits. -/
def magnitude (r : Radix) : RegularExpression Char := several (oneOf r.digits)

/-- A whole number in a base. -/
def pattern (r : Radix) : RegularExpression Char := word r.mark * r.magnitude

end Radix

namespace CoreSchema

open Binary64.Pattern (sign digit decimal)

def nulls : List String := ["", "~", "null", "Null", "NULL"]

def booleans : Bool → List String
  | true => ["true", "True", "TRUE"]
  | false => ["false", "False", "FALSE"]

/-- A whole number in base ten. -/
def whole : RegularExpression Char := optional sign * several digit

def infinity : RegularExpression Char :=
  optional sign * (word ".inf" + word ".Inf" + word ".INF")

def notANumber : RegularExpression Char := word ".nan" + word ".NaN" + word ".NAN"

/-- A number of any kind. -/
def number : RegularExpression Char :=
  whole + Radix.octal.pattern + Radix.hexadecimal.pattern + decimal + infinity + notANumber

/-- The greatest magnitude of a number of 64 bits, with a minus or without. -/
def limit (negative : Bool) : Nat := if negative then Nat.pow 2 63 else Nat.pow 2 63 - 1

/-- Numbers of the schema that are taken for texts: infinity in capital letters with a plus, and what 64 bits
do not hold in another base. -/
def Overlooked (s : String) : Prop :=
  s ∈ ["+.Inf", "+.INF"] ∨
    ∃ (r : Radix) (ds : List Char), s.toList = '0' :: r.letter :: ds ∧ ds ∈ r.magnitude.matches'
      ∧ limit false < r.value ds

/-- Texts that are taken for numbers though the schema has no such number: in another base, those with a
sign. -/
def Overread (s : String) : Prop :=
  ∃ (r : Radix) (c : Char) (ds : List Char), s.toList = '0' :: r.letter :: c :: ds ∧ c ∈ ['-', '+']
    ∧ ds ∈ r.magnitude.matches' ∧ r.value ds ≤ limit (c = '-')

/-- The numbers as they are read. -/
def ReadAsNumber (s : String) : Prop := (Matches number s ∧ ¬ Overlooked s) ∨ Overread s

end CoreSchema

open CoreSchema

variable {r : Radix} {c : Char} {cs ds : List Char} {s : String}

/-! ### Whole numbers in another base -/

theorem digitValue?_of_mem (h : c ∈ r.digits) : digitValue? r.base c = some (Radix.weight c) := by
  have hall : ∀ r : Radix, ∀ c ∈ r.digits, digitValue? r.base c = some (Radix.weight c) := by
    rintro (_ | _) <;> exact forall_mem_of_all (by decide)
  exact hall r c h

theorem mem_digits_of_digitValue? {n : Nat} (h : digitValue? r.base c = some n) : c ∈ r.digits := by
  simp only [digitValue?, Option.ite_none_right_eq_some, Char.isDigit_iff_toNat, Bool.and_eq_true,
    decide_eq_true_eq, Char.le_def, UInt32.le_iff_toNat_le, Char.toNat_val, Char.reduceToNat] at h
  obtain ⟨hbound, -⟩ := h
  cases r with
  | octal =>
      simp only [Radix.digits, Radix.base, List.mem_cons, List.not_mem_nil, or_false, ← Char.toNat_inj,
        Char.reduceToNat] at hbound ⊢
      split_ifs at hbound <;> omega
  | hexadecimal =>
      simp only [Radix.digits, Radix.base, Binary64.Pattern.digits, List.cons_append, List.nil_append,
        List.mem_cons, List.not_mem_nil, or_false, ← Char.toNat_inj, Char.reduceToNat] at hbound ⊢
      split_ifs at hbound <;> omega

theorem digitValue?_eq_some {n : Nat} :
    digitValue? r.base c = some n ↔ c ∈ r.digits ∧ Radix.weight c = n := by
  constructor
  · intro h
    have hmem := mem_digits_of_digitValue? h
    rw [digitValue?_of_mem hmem] at h
    exact ⟨hmem, Option.some.inj h⟩
  · rintro ⟨hmem, rfl⟩
    exact digitValue?_of_mem hmem

theorem Radix.value_eq_foldl (r : Radix) (ds : List Char) :
    r.value ds = ds.foldl (fun n c => n * r.base + Radix.weight c) 0 := by
  rw [Radix.value, Nat.ofDigits_eq_foldr, List.map_reverse, List.foldr_reverse, List.foldl_map]
  simp only [Nat.mul_comm, Nat.add_comm, Nat.cast_id]

example : Radix.hexadecimal.value ['1', 'F'] = 31 := by decide

theorem foldlM_digitValue? {n m : Nat} :
    ds.foldlM (fun n c => (digitValue? r.base c).map (n * r.base + ·)) n = some m
      ↔ (∀ c ∈ ds, c ∈ r.digits) ∧ ds.foldl (fun n c => n * r.base + Radix.weight c) n = m := by
  induction ds generalizing n with
  | nil => simp
  | cons c ds ih =>
      simp only [List.foldlM_cons, bind, Option.bind_eq_some_iff, Option.map_eq_some_iff,
        digitValue?_eq_some, ih, List.foldl_cons, List.forall_mem_cons]
      constructor
      · rintro ⟨_, ⟨_, ⟨hc, rfl⟩, rfl⟩, hds, rfl⟩
        exact ⟨⟨hc, hds⟩, rfl⟩
      · rintro ⟨⟨hc, hds⟩, rfl⟩
        exact ⟨_, ⟨_, ⟨hc, rfl⟩, rfl⟩, hds, rfl⟩

theorem within_wholeBounds {negative : Bool} {m : Nat} :
    (Token.wholeBounds.1 ≤ (if negative then -(m : Int) else m)
      ∧ (if negative then -(m : Int) else m) ≤ Token.wholeBounds.2) ↔ m ≤ limit negative := by
  cases negative <;> simp [Token.wholeBounds, limit]

/-- A whole number in a base has digits, perhaps behind a sign, and fits into 64 bits. -/
theorem isSome_wholeInBase? :
    (wholeInBase? r.base cs).isSome = true
      ↔ (signed cs).2 ∈ r.magnitude.matches' ∧ r.value (signed cs).2 ≤ limit (signed cs).1 := by
  rw [Radix.magnitude, mem_several_oneOf, Radix.value_eq_foldl]
  simp only [wholeInBase?]
  split
  · next hempty => simp [List.isEmpty_iff.mp hempty]
  · next hempty =>
    simp only [Option.isSome_iff_exists, bind, Option.bind_eq_some_iff, foldlM_digitValue?,
      Bool.and_eq_true, decide_eq_true_eq, within_wholeBounds, Option.ite_none_right_eq_some]
    constructor
    · rintro ⟨_, _, ⟨hdigits, rfl⟩, hlimit, -⟩
      exact ⟨⟨by simpa using hempty, hdigits⟩, hlimit⟩
    · rintro ⟨⟨-, hdigits⟩, hlimit⟩
      exact ⟨_, _, ⟨hdigits, rfl⟩, hlimit, rfl⟩

/-! ### Decimal numbers -/

/-- A word for infinity or for no number begins with a letter. -/
theorem not_mem_words (hc : c.isDigit = true ∨ c = '.') (hcs : cs.head? = some c) :
    String.ofList (cs.map Char.toLower) ∉ Binary64.words := by
  have hlower : c.toLower = c := by
    obtain hdigit | rfl := hc
    · exact toLower_of_isDigit hdigit
    · rfl
  have hletter : ∀ w ∈ Binary64.words, w.toList.head?.any (fun c => c.isDigit || c = '.') = false := by
    decide
  intro hword
  have hhead := hletter _ hword
  rw [String.toList_ofList, List.head?_map, hcs, Option.map_some, hlower, Option.any_some] at hhead
  simp_all

/-- A decimal number passes the filter in front of the reader of decimal numbers. -/
theorem decimal_shape (h : Matches Binary64.Pattern.decimal s) :
    (∃ c ∈ (signed s.toList).2.head?, c.isDigit = true ∨ c = '.') ∧
    (∀ c ∈ (signed s.toList).2, c.isDigit = true ∨ c ∈ ['.', 'e', 'E', '-', '+']) ∧
    (signed s.toList).2 ≠ ['.'] := by
  rw [Matches, Binary64.Pattern.decimal, Binary64.mem_optional_sign_mul (forall_mem_of_all (by decide))] at h
  generalize (signed s.toList).2 = body at h
  have hmatch := (RegularExpression.rmatch_iff_matches' _ _).mpr h
  refine ⟨?_, fun c hc => ?_, ?_⟩
  · cases body with
    | nil => exact absurd hmatch (by decide)
    | cons c rest =>
        have hfirsts : ∀ c ∈ firsts (Binary64.Pattern.mantissa * optional Binary64.Pattern.exponent),
            c.isDigit = true ∨ c = '.' := forall_mem_of_all (by decide)
        exact ⟨c, rfl, hfirsts c (mem_firsts h)⟩
  · have hletters : ∀ c ∈ letters (Binary64.Pattern.mantissa * optional Binary64.Pattern.exponent),
        c.isDigit = true ∨ c ∈ ['.', 'e', 'E', '-', '+'] := forall_mem_of_all (by decide)
    exact hletters c (mem_letters h hc)
  · rintro rfl
    exact absurd hmatch (by decide)

/-- The filter in front of the reader of decimal numbers keeps the words from it and no number. -/
theorem isSome_decimalNumber? :
    (decimalNumber? s).isSome = true ↔ Matches Binary64.Pattern.decimal s := by
  have hshape := decimal_shape (s := s)
  have hread := Binary64.isSome_ofString? (s := s)
  rw [decimalNumber?]
  cases hbody : (signed s.toList).2 with
  | nil =>
      rw [hbody] at hshape
      refine iff_of_false Bool.false_ne_true fun h => ?_
      obtain ⟨⟨c, hc, -⟩, -⟩ := hshape h
      cases hc
  | cons c rest =>
      rw [hbody] at hshape hread
      simp only [Option.isSome_iff_exists, Option.ite_none_right_eq_some, exists_and_left]
      rw [← Option.isSome_iff_exists, hread]
      simp only [Bool.and_eq_true, Bool.or_eq_true, decide_eq_true_eq, List.all_eq_true,
        List.contains_iff_mem]
      constructor
      · rintro ⟨⟨⟨hbegins, -⟩, -⟩, hword | h⟩
        · exact absurd hword (not_mem_words hbegins rfl)
        · exact h
      · intro h
        obtain ⟨⟨d, hd, hbegins⟩, hall, hne⟩ := hshape h
        obtain rfl : c = d := Option.some.inj hd
        exact ⟨⟨⟨hbegins, hall⟩, hne⟩, .inr h⟩

/-! ### Numbers of any kind -/

/-- The words for infinity. -/
def infinities : List String :=
  [".inf", ".Inf", ".INF", "-.inf", "-.Inf", "-.INF", "+.inf", "+.Inf", "+.INF"]

theorem matches_infinity : Matches infinity s ↔ s ∈ infinities := by
  simp only [Matches, infinity, infinities, mem_optional_mul, Binary64.Pattern.sign, mem_oneOf_mul,
    mem_add, mem_word, ← String.toList_inj, List.mem_cons, List.not_mem_nil, or_false, or_and_right,
    exists_or, exists_eq_left, or_assoc]
  exact Iff.rfl

theorem matches_notANumber : Matches notANumber s ↔ s ∈ [".nan", ".NaN", ".NAN"] := by
  simp only [Matches, notANumber, mem_add, mem_word, String.toList_inj, List.mem_cons, List.not_mem_nil,
    or_false, or_assoc]

/-- The pattern of decimal numbers has the whole numbers in it. -/
theorem decimal_of_whole (h : Matches whole s) : Matches Binary64.Pattern.decimal s := by
  rw [Matches, whole, Binary64.mem_optional_sign_mul (forall_mem_of_all (by decide))] at h
  rw [Matches, Binary64.Pattern.decimal, Binary64.mem_optional_sign_mul (forall_mem_of_all (by decide)), mem_mul]
  refine ⟨_, ?_, [], mem_optional.mpr (.inl rfl), List.append_nil _⟩
  rw [Binary64.mem_mantissa]
  obtain ⟨hne, hdigits⟩ := Binary64.mem_several_digit.mp h
  exact ⟨_, [], by simpa using hdigits, .inl ⟨hne, rfl, rfl⟩⟩

/-- A number is a decimal number, one of the words or a whole number in another base. -/
theorem matches_number : Matches number s ↔
    Matches Binary64.Pattern.decimal s ∨ Matches infinity s ∨ Matches notANumber s
      ∨ ∃ r : Radix, Matches r.pattern s := by
  have hnumber : Matches number s ↔ ((((Matches whole s ∨ Matches Radix.octal.pattern s)
      ∨ Matches Radix.hexadecimal.pattern s) ∨ Matches Binary64.Pattern.decimal s)
      ∨ Matches infinity s) ∨ Matches notANumber s := by
    simp only [Matches, number, mem_add]
  rw [hnumber]
  constructor
  · rintro (((((h | h) | h) | h) | h) | h)
    · exact .inl (decimal_of_whole h)
    · exact .inr (.inr (.inr ⟨.octal, h⟩))
    · exact .inr (.inr (.inr ⟨.hexadecimal, h⟩))
    · exact .inl h
    · exact .inr (.inl h)
    · exact .inr (.inr (.inl h))
  · rintro (h | h | h | ⟨_ | _, h⟩)
    · exact .inl (.inl (.inr h))
    · exact .inl (.inr h)
    · exact .inr h
    · exact .inl (.inl (.inl (.inl (.inr h))))
    · exact .inl (.inl (.inl (.inr h)))

/-! ### Numbers with the prefix of a base -/

theorem Radix.letter_injective {r' : Radix} (h : r'.letter = r.letter) : r' = r := by
  cases r <;> cases r' <;> simp_all [letter]

theorem Radix.mark_inj {r' : Radix} {cs' : List Char} (h : s.toList = '0' :: r.letter :: cs)
    (h' : s.toList = '0' :: r'.letter :: cs') : r' = r ∧ cs' = cs := by
  obtain ⟨-, hrest⟩ := List.cons.inj (h'.symm.trans h)
  obtain ⟨hletter, hcs⟩ := List.cons.inj hrest
  exact ⟨letter_injective hletter, hcs⟩

theorem Radix.matches_pattern :
    Matches r.pattern s ↔ ∃ cs ∈ r.magnitude.matches', s.toList = '0' :: r.letter :: cs := by
  rw [Matches, pattern, mem_word_mul, mark, String.toList_ofList]
  rfl

/-- A sign is no digit. -/
theorem Radix.not_mem_magnitude (hc : c ∈ ['-', '+']) : c :: cs ∉ r.magnitude.matches' := by
  have hall : ∀ r : Radix, ∀ c ∈ ['-', '+'], c ∉ firsts r.magnitude := by
    rintro (_ | _) <;> exact forall_mem_of_all (by decide)
  exact fun h => hall r c hc (mem_firsts h)

/-- With the prefix of a base, only a number in that base is a number. -/
theorem matches_number_of_radix (h : s.toList = '0' :: r.letter :: cs) :
    Matches number s ↔ cs ∈ r.magnitude.matches' := by
  have hletter : r.letter ∈ s.toList := by
    rw [h]
    exact List.mem_cons_of_mem _ List.mem_cons_self
  have hforeign : ∀ r : Radix, ∀ r' ∈ [Binary64.Pattern.decimal, infinity, notANumber],
      r.letter ∉ letters r' := by
    rintro (_ | _) <;> decide
  have hother : ∀ r' ∈ [Binary64.Pattern.decimal, infinity, notANumber], ¬ Matches r' s :=
    fun r' hr' => not_matches_of_mem hletter (hforeign r r' hr')
  rw [matches_number, or_iff_right (hother _ (by simp)), or_iff_right (hother _ (by simp)),
    or_iff_right (hother _ (by simp))]
  constructor
  · rintro ⟨r', hr'⟩
    obtain ⟨cs', hcs', h'⟩ := Radix.matches_pattern.mp hr'
    obtain ⟨rfl, rfl⟩ := Radix.mark_inj h h'
    exact hcs'
  · exact fun hcs => ⟨r, Radix.matches_pattern.mpr ⟨cs, hcs, h⟩⟩

theorem overlooked_of_radix (h : s.toList = '0' :: r.letter :: cs) :
    Overlooked s ↔ cs ∈ r.magnitude.matches' ∧ limit false < r.value cs := by
  constructor
  · rintro (hs | ⟨r', ds, h', hds, hlimit⟩)
    · have hhead : ∀ s ∈ ["+.Inf", "+.INF"], s.toList.head? ≠ some '0' := by decide
      exact absurd (by rw [h]; rfl) (hhead s hs)
    · obtain ⟨rfl, rfl⟩ := Radix.mark_inj h h'
      exact ⟨hds, hlimit⟩
  · rintro ⟨hcs, hlimit⟩
    exact .inr ⟨r, cs, h, hcs, hlimit⟩

theorem overread_of_radix (h : s.toList = '0' :: r.letter :: cs) :
    Overread s ↔ ∃ c ds, cs = c :: ds ∧ c ∈ ['-', '+'] ∧ ds ∈ r.magnitude.matches'
      ∧ r.value ds ≤ limit (c = '-') := by
  constructor
  · rintro ⟨r', c, ds, h', hc, hds, hlimit⟩
    obtain ⟨rfl, rfl⟩ := Radix.mark_inj h h'
    exact ⟨c, ds, rfl, hc, hds, hlimit⟩
  · rintro ⟨c, ds, rfl, hc, hds, hlimit⟩
    exact ⟨r, c, ds, h, hc, hds, hlimit⟩

theorem plainNumber?_of_radix (h : s.toList = '0' :: r.letter :: cs) :
    plainNumber? s = (wholeInBase? r.base cs).map .ofInt := by
  cases r with
  | octal | hexadecimal =>
      rw [plainNumber?, h]
      rfl

theorem isSome_plainNumber?_of_radix (h : s.toList = '0' :: r.letter :: cs) :
    (plainNumber? s).isSome = true ↔ ReadAsNumber s := by
  rw [plainNumber?_of_radix h, Option.isSome_map, isSome_wholeInBase?, ReadAsNumber,
    matches_number_of_radix h, overlooked_of_radix h, overread_of_radix h]
  have hsigned : ∀ c ∈ ['-', '+'], ∀ rest, signed (c :: rest) = (decide (c = '-'), rest) := by
    simp [signed]
  by_cases hsign : ∃ c ∈ ['-', '+'], ∃ rest, cs = c :: rest
  · obtain ⟨c, hc, rest, rfl⟩ := hsign
    rw [hsigned c hc]
    constructor
    · rintro ⟨hrest, hlimit⟩
      exact .inr ⟨c, rest, rfl, hc, hrest, hlimit⟩
    · rintro (⟨hcs, -⟩ | ⟨_, _, heq, -, hrest, hlimit⟩)
      · exact absurd hcs (Radix.not_mem_magnitude hc)
      · obtain ⟨rfl, rfl⟩ := List.cons.inj heq
        exact ⟨hrest, hlimit⟩
  · have hhead : ∀ c ∈ cs.head?, c ∉ ['-', '+'] := by
      intro c hc hmem
      obtain ⟨rest, rfl⟩ := List.head?_eq_some_iff.mp hc
      exact hsign ⟨c, hmem, rest, rfl⟩
    rw [Binary64.signed_of_head hhead]
    constructor
    · rintro ⟨hcs, hlimit⟩
      exact .inl ⟨hcs, fun hover => absurd hlimit (Nat.not_le.mpr hover.2)⟩
    · rintro (⟨hcs, hover⟩ | ⟨c, rest, heq, hc, -⟩)
      · exact ⟨hcs, Nat.not_lt.mp fun hlimit => hover ⟨hcs, hlimit⟩⟩
      · exact absurd ⟨c, hc, rest, heq⟩ hsign

/-! ### Numbers without a prefix -/

/-- Without the prefix of a base, what is read is what the schema has but for two texts. -/
theorem readAsNumber_of_noRadix (h : ∀ (r : Radix) cs, s.toList ≠ '0' :: r.letter :: cs) :
    ReadAsNumber s ↔
      (Matches Binary64.Pattern.decimal s ∨ Matches infinity s ∨ Matches notANumber s)
        ∧ s ∉ ["+.Inf", "+.INF"] := by
  have hpattern : ¬ ∃ r : Radix, Matches r.pattern s := by
    rintro ⟨r, hr⟩
    obtain ⟨cs, -, hcs⟩ := Radix.matches_pattern.mp hr
    exact h r cs hcs
  have hoverlooked : Overlooked s ↔ s ∈ ["+.Inf", "+.INF"] :=
    or_iff_left fun ⟨r, ds, hds, _⟩ => h r ds hds
  have hoverread : ¬ Overread s := fun ⟨r, c, ds, hds, _⟩ => h r (c :: ds) hds
  rw [ReadAsNumber, matches_number, hoverlooked, or_iff_left hoverread, or_iff_left hpattern]

/-- The words that are read as numbers. -/
def readWords : List String :=
  [".inf", ".Inf", ".INF", "+.inf"] ++ ["-.inf", "-.Inf", "-.INF"] ++ [".nan", ".NaN", ".NAN"]

theorem mem_readWords :
    s ∈ readWords ↔ (Matches infinity s ∨ Matches notANumber s) ∧ s ∉ ["+.Inf", "+.INF"] := by
  rw [matches_infinity, matches_notANumber]
  constructor
  · exact (by decide : ∀ s ∈ readWords, (s ∈ infinities ∨ s ∈ [".nan", ".NaN", ".NAN"])
      ∧ s ∉ ["+.Inf", "+.INF"]) s
  · rintro ⟨hinfinity | hnan, hplus⟩
    · exact (by decide : ∀ s ∈ infinities, s ∉ ["+.Inf", "+.INF"] → s ∈ readWords) s hinfinity hplus
    · exact (by decide : ∀ s ∈ [".nan", ".NaN", ".NAN"], s ∈ readWords) s hnan

theorem isSome_plainNumber?_of_noRadix (h : ∀ (r : Radix) cs, s.toList ≠ '0' :: r.letter :: cs) :
    (plainNumber? s).isSome = true ↔ ReadAsNumber s := by
  have hplus : Matches Binary64.Pattern.decimal s → s ∉ ["+.Inf", "+.INF"] := fun hdecimal hs =>
    (by decide : ∀ s ∈ ["+.Inf", "+.INF"], ¬ Matches Binary64.Pattern.decimal s) s hs hdecimal
  have hread : ReadAsNumber s ↔ s ∈ readWords ∨ (decimalNumber? s).isSome = true := by
    rw [readAsNumber_of_noRadix h, mem_readWords, isSome_decimalNumber?, or_and_right, or_comm,
      and_iff_left_of_imp hplus]
  rw [hread, plainNumber?.eq_def, readWords, List.mem_append, List.mem_append]
  split
  · next ds hds => exact absurd hds (h .hexadecimal ds)
  · next ds hds => exact absurd hds (h .octal ds)
  · simp only [List.contains_iff_mem]
    split_ifs with hpositive hnegative hnan
    · exact iff_of_true rfl (.inl (.inl (.inl hpositive)))
    · exact iff_of_true rfl (.inl (.inl (.inr hnegative)))
    · exact iff_of_true rfl (.inl (.inr hnan))
    · exact (or_iff_right (by simp only [hpositive, hnegative, hnan, or_false, not_false_eq_true])).symm

theorem isSome_plainNumber? : (plainNumber? s).isSome = true ↔ ReadAsNumber s := by
  by_cases h : ∃ (r : Radix) (cs : List Char), s.toList = '0' :: r.letter :: cs
  · obtain ⟨r, cs, h⟩ := h
    exact isSome_plainNumber?_of_radix h
  · simp only [not_exists] at h
    exact isSome_plainNumber?_of_noRadix h

/-- What is overlooked is a number of the schema. -/
theorem matches_number_of_overlooked (h : Overlooked s) : Matches number s := by
  obtain hplus | ⟨r, ds, hs, hds, -⟩ := h
  · exact (by decide : ∀ s ∈ ["+.Inf", "+.INF"], Matches number s) s hplus
  · exact (matches_number_of_radix hs).mpr hds

/-- What is overread is not. -/
theorem not_matches_number_of_overread (h : Overread s) : ¬ Matches number s := by
  obtain ⟨r, c, ds, hs, hc, -⟩ := h
  rw [matches_number_of_radix hs]
  exact Radix.not_mem_magnitude hc

/-! ### Scalars -/

/-- The words for null and for truth values are no numbers, and different. -/
theorem not_readAsNumber (h : s ∈ nulls ∨ ∃ b, s ∈ booleans b) : ¬ ReadAsNumber s := by
  have hnulls : ∀ s ∈ nulls, plainNumber? s = none := by decide
  have hbooleans : ∀ b, ∀ s ∈ booleans b, plainNumber? s = none := by decide
  rw [← isSome_plainNumber?]
  obtain h | ⟨b, h⟩ := h
  · simp [hnulls s h]
  · simp [hbooleans b s h]

theorem not_mem_booleans (h : s ∈ nulls) (b : Bool) : s ∉ booleans b :=
  (by decide : ∀ s ∈ nulls, ∀ b, s ∉ booleans b) s h b

theorem booleans_disjoint {b b' : Bool} (h : s ∈ booleans b) (h' : s ∈ booleans b') : b = b' :=
  (by decide : ∀ b, ∀ s ∈ booleans b, ∀ b', s ∈ booleans b' → b = b') b s h b' h'

theorem ofScalar_of_mem_nulls (o : Origin) (h : s ∈ nulls) : Token.ofScalar o s true = .null o :=
  if_pos (List.contains_iff_mem.mpr h)

theorem ofScalar_of_mem_booleans (o : Origin) {b : Bool} (h : s ∈ booleans b) :
    Token.ofScalar o s true = .boolean o b := by
  have hall : ∀ b, ∀ s ∈ booleans b, ∀ o, Token.ofScalar o s true = .boolean o b := by
    simp only [booleans]
    rintro (_ | _) <;> simp [Token.ofScalar]
  exact hall b s h o

theorem ofScalar_of_not_mem (o : Origin) (hnull : s ∉ nulls) (hboolean : ∀ b, s ∉ booleans b) :
    Token.ofScalar o s true = (plainNumber? s).elim (.text o s) (.number o) := by
  have htrue := hboolean true
  have hfalse := hboolean false
  simp only [nulls, booleans, ← List.contains_iff_mem] at hnull htrue hfalse
  rw [Token.ofScalar, if_neg (by decide), if_neg hnull, if_neg htrue, if_neg hfalse]
  cases plainNumber? s with
  | none | some => rfl

/-- **A plain scalar is null or a truth value where the core schema has it so, and a number where it is read
as one**; every other plain scalar and every quoted one is a text, and the same. -/
theorem ofScalar_coreSchema (o : Origin) (s : String) :
    Token.ofScalar o s false = .text o s ∧
    (Token.ofScalar o s true = .null o ↔ s ∈ nulls) ∧
    (∀ b, Token.ofScalar o s true = .boolean o b ↔ s ∈ booleans b) ∧
    ((∃ n, Token.ofScalar o s true = .number o n) ↔ ReadAsNumber s) ∧
    (Token.ofScalar o s true = .text o s
      ↔ s ∉ nulls ∧ (∀ b, s ∉ booleans b) ∧ ¬ ReadAsNumber s) := by
  refine ⟨rfl, ?_⟩
  by_cases hnull : s ∈ nulls
  · have hread := not_readAsNumber (.inl hnull)
    have hboolean := not_mem_booleans hnull
    simp [ofScalar_of_mem_nulls o hnull, hnull, hboolean, hread]
  by_cases hboolean : ∃ b, s ∈ booleans b
  · have hread := not_readAsNumber (.inr hboolean)
    obtain ⟨b, hb⟩ := hboolean
    rw [ofScalar_of_mem_booleans o hb]
    refine ⟨iff_of_false nofun hnull, fun b' => ⟨?_, fun hb' => ?_⟩,
      iff_of_false (fun ⟨_, h⟩ => nomatch h) hread, iff_of_false nofun fun ⟨_, hne, _⟩ => hne b hb⟩
    · rintro ⟨⟩
      exact hb
    · rw [booleans_disjoint hb hb']
  · rw [not_exists] at hboolean
    rw [ofScalar_of_not_mem o hnull hboolean, ← isSome_plainNumber?]
    cases plainNumber? s <;> simp [hnull, hboolean]

/-- Infinity in capital letters has no plus. -/
theorem ofScalar_plusInfinity :
    ¬ ∀ (o : Origin) (s : String), (∃ n, Token.ofScalar o s true = .number o n) ↔ Matches number s := by
  intro h
  obtain ⟨n, hn⟩ := (h .unknown "+.Inf").mpr (by decide)
  have htext : Token.ofScalar .unknown "+.Inf" true = .text .unknown "+.Inf" := rfl
  rw [htext] at hn
  cases hn

end PipelineExpansion.Template
