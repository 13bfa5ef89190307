import PipelineExpansion.Proofs.Number.Decimal
import PipelineExpansion.Proofs.Text.Letter
import PipelineExpansion.Yaml.Cursor

/-!
# Whole numbers of 32 bits

A whole number is written with an optional sign, and with digits that commas may divide (`WritesInt`).
`int32?` computes it in 64 bits, with checks at each digit. Two things may go wrong in such a computation: a
check on the way refuses a number that would be in range at the end, or what is not checked leaves the
range. Neither happens. The checks come to one check of the result (`int64?_eq_checked`), since the value
never decreases from digit to digit; and the one operation without a check, the change of sign, is made to
numbers that are not negative (`toInt_neg_of_nonneg`).

## Main results

* `int64?_eq_some_iff`, `int64?_eq_none_iff`: digits are read as their value, if that is one of 64 bits.
* `int32?_eq_some_iff`: a text is read as the number it writes, if that is one of 32 bits.
* `int32?_toString`: so a number of 32 bits that is written in decimal digits is read as itself.
-/

namespace PipelineExpansion.Yaml

variable {digits : List Char} {n : Int} {m : Int64}

/-! ### Numbers of 64 bits -/

/-- A whole number that passes the check is kept, and all others are refused. -/
theorem checked_eq_some_iff : checked n = some m ↔ m.toInt = n := by
  rw [checked, Option.ite_none_right_eq_some, Bool.and_eq_true, decide_eq_true_eq, decide_eq_true_eq,
    Option.some_inj]
  constructor
  · rintro ⟨⟨hlow, hhigh⟩, rfl⟩
    exact Int64.toInt_ofInt_of_le hlow (Int.lt_of_le_sub_one hhigh)
  · rintro rfl
    exact ⟨⟨Int64.le_toInt m, Int64.toInt_le m⟩, Int64.ofInt_toInt m⟩

theorem checked_eq_none_iff :
    checked n = none ↔ n < -9223372036854775808 ∨ 9223372036854775807 < n := by
  rw [checked, ite_eq_right_iff, Bool.and_eq_true, decide_eq_true_eq, decide_eq_true_eq,
    Int64.toInt_minValue, Int64.toInt_maxValue]
  simp only [reduceCtorEq, imp_false]
  omega

/-- The value only grows with further digits. -/
theorem le_ofDigitChars (digits : List Char) (init : Nat) : init ≤ Nat.ofDigitChars 10 digits init := by
  induction digits generalizing init with
  | nil => exact Nat.le_refl init
  | cons c rest ih =>
      rw [Nat.ofDigitChars_cons]
      have hrest := ih (10 * init + (c.toNat - '0'.toNat))
      omega

/-- **Checking at each digit is checking the value.** What is refused on the way would be refused at the
end, for what follows can only make it greater. -/
theorem int64?_eq_checked (digits : List Char) :
    int64? digits = checked (Nat.ofDigitChars 10 digits 0) := by
  suffices hfrom : ∀ init : Nat, ∀ m : Int64, m.toInt = init →
      digits.foldlM (fun n c => do
        let tens ← checked (n.toInt * 10)
        checked (tens.toInt + ((c.toNat - '0'.toNat : Nat) : Int))) m =
      checked (Nat.ofDigitChars 10 digits init) from hfrom 0 0 Int64.toInt_zero
  induction digits with
  | nil =>
      intro init m hm
      exact (checked_eq_some_iff.mpr hm).symm
  | cons c rest ih =>
      intro init m hm
      rw [List.foldlM_cons, Nat.ofDigitChars_cons, hm]
      have hgrows := le_ofDigitChars rest (10 * init + (c.toNat - '0'.toNat))
      cases htens : checked (init * 10) with
      | none =>
          have hlarge := checked_eq_none_iff.mp htens
          exact (checked_eq_none_iff.mpr (by omega)).symm
      | some tens =>
          rw [checked_eq_some_iff] at htens
          dsimp only [Option.bind_eq_bind, Option.bind_some]
          cases hnext : checked (tens.toInt + ((c.toNat - '0'.toNat : Nat) : Int)) with
          | none =>
              have hlarge := checked_eq_none_iff.mp hnext
              exact (checked_eq_none_iff.mpr (by omega)).symm
          | some next =>
              rw [checked_eq_some_iff] at hnext
              exact ih _ next (by omega)

theorem int64?_eq_some_iff : int64? digits = some m ↔ m.toInt = Nat.ofDigitChars 10 digits 0 := by
  rw [int64?_eq_checked, checked_eq_some_iff]

theorem int64?_eq_none_iff : int64? digits = none ↔ 2 ^ 63 ≤ Nat.ofDigitChars 10 digits 0 := by
  rw [int64?_eq_checked, checked_eq_none_iff]
  omega

/-- Only the least number has no counterpart of the other sign. -/
theorem toInt_neg_of_nonneg (h : 0 ≤ m.toInt) : (-m).toInt = -m.toInt := by
  have hlt := Int64.toInt_lt m
  rw [Int64.toInt_neg, Int.bmod_eq_of_le (by omega) (by omega)]

/-- What is read from digits is not negative, so that its sign can be changed. -/
theorem toInt_neg_of_int64? (h : int64? digits = some m) : (-m).toInt = -m.toInt :=
  toInt_neg_of_nonneg (by rw [int64?_eq_some_iff.mp h]; exact Int.natCast_nonneg _)

/-! ### Texts that write a whole number -/

/-- Digits that commas may divide, beginning with a digit. -/
structure IsGrouped (digits : List Char) : Prop where
  first : ∃ c ∈ digits.head?, c.isDigit = true
  all : ∀ c ∈ digits, c.isDigit = true ∨ c = ','

/-- The decimal value of the digits among some characters. -/
def groupedValue (cs : List Char) : Nat := Nat.ofDigitChars 10 (cs.filter Char.isDigit) 0

/-- Characters write a whole number: grouped digits, alone or behind one sign. -/
inductive WritesInt : List Char → Int → Prop
  | unsigned {digits : List Char} (h : IsGrouped digits) : WritesInt digits (groupedValue digits)
  | plus {digits : List Char} (h : IsGrouped digits) : WritesInt ('+' :: digits) (groupedValue digits)
  | minus {digits : List Char} (h : IsGrouped digits) :
      WritesInt ('-' :: digits) (-(groupedValue digits : Int))

theorem IsGrouped.head_notMem (h : IsGrouped digits) : ∀ c ∈ digits.head?, c ∉ ['-', '+'] := by
  obtain ⟨c, hc, hdigit⟩ := h.first
  rintro d hd hsign
  obtain rfl := Option.mem_unique hc hd
  have hnodigit : ∀ c ∈ ['-', '+'], ¬ c.isDigit = true := Text.forall_mem_of_all (by decide)
  exact hnodigit c hsign hdigit

/-- What is written is read off the sign and the digits behind it. -/
theorem writesInt_iff {cs : List Char} :
    WritesInt cs n ↔ IsGrouped (Binary64.signed cs).2 ∧
      n = if (Binary64.signed cs).1 then -(groupedValue (Binary64.signed cs).2 : Int)
        else groupedValue (Binary64.signed cs).2 := by
  constructor
  · rintro (h | h | h)
    · rw [Binary64.signed_of_head h.head_notMem]
      exact ⟨h, rfl⟩
    · exact ⟨h, rfl⟩
    · exact ⟨h, rfl⟩
  · rintro ⟨h, rfl⟩
    obtain ⟨rest, rfl⟩ | ⟨rest, rfl⟩ | hhead := Binary64.sign_cases cs
    · exact .minus h
    · exact .plus h
    · rw [Binary64.signed_of_head hhead] at h ⊢
      exact .unsigned h

/-- The digits that are grouped are those that the reader does not refuse. -/
theorem isGrouped_iff : IsGrouped digits ↔
    ¬ (digits.isEmpty || digits.head? = some ',' || !digits.all fun c => c.isDigit || c = ',') = true := by
  have hcomma : Char.isDigit ',' = false := by decide
  cases digits with
  | nil => exact iff_of_false (fun h => by simpa using h.first) (by simp)
  | cons c rest =>
      have hcons : IsGrouped (c :: rest) ↔
          c.isDigit = true ∧ ∀ d ∈ c :: rest, d.isDigit = true ∨ d = ',' :=
        ⟨fun h => ⟨by simpa using h.first, h.all⟩, fun h => ⟨⟨c, rfl, h.1⟩, h.2⟩⟩
      rw [hcons]
      simp only [List.isEmpty_cons, Bool.false_or, List.head?_cons, Option.some.injEq, Bool.or_eq_true,
        decide_eq_true_eq, Bool.not_eq_true', not_or, Bool.not_eq_false, List.all_eq_true]
      refine and_congr_left fun hall => ⟨?_, (hall c List.mem_cons_self).resolve_right⟩
      rintro hdigit rfl
      rw [hcomma] at hdigit
      cases hdigit

/-- Among grouped digits, those that are kept are those that are no commas. -/
theorem IsGrouped.filter_ne (h : IsGrouped digits) :
    digits.filter (· ≠ ',') = digits.filter Char.isDigit := by
  refine List.filter_congr fun c hc => ?_
  obtain hdigit | rfl := h.all c hc
  · rw [hdigit, decide_eq_true_eq]
    rintro rfl
    exact absurd hdigit (by decide)
  · decide

theorem checked_int32_iff :
    (-2147483648 ≤ m && m ≤ 2147483647) = true ↔ -2147483648 ≤ m.toInt ∧ m.toInt ≤ 2147483647 := by
  rw [Bool.and_eq_true, decide_eq_true_eq, decide_eq_true_eq, Int64.le_iff_toInt_le,
    Int64.le_iff_toInt_le]
  exact Iff.rfl

/-- **A text is read as the number that it writes**, blanks around it apart, if that has 32 bits. -/
theorem int32?_eq_some_iff {s : String} :
    int32? s = some n ↔
      WritesInt (Text.trim s).toList n ∧ -2147483648 ≤ n ∧ n ≤ 2147483647 := by
  rw [int32?, Text.trim, String.toList_ofList, writesInt_iff]
  generalize Text.dropTrailingBlanks (Text.dropBlanks s.toList) = body
  obtain ⟨negative, digits⟩ := Binary64.signed body
  dsimp only
  rw [Option.ite_none_left_eq_some, ← isGrouped_iff, and_assoc]
  refine and_congr_right fun hgrouped => ?_
  rw [hgrouped.filter_ne, Option.bind_eq_bind, Option.bind_eq_some_iff]
  have hsigned (m : Int64) (hm : int64? (digits.filter Char.isDigit) = some m) :
      (if negative then -m else m).toInt =
        if negative then -(groupedValue digits : Int) else groupedValue digits := by
    rw [groupedValue, ← int64?_eq_some_iff.mp hm]
    cases negative with
    | true => exact toInt_neg_of_int64? hm
    | false => rfl
  constructor
  · rintro ⟨m, hm, hvalue⟩
    rw [Option.ite_none_right_eq_some, checked_int32_iff, Option.some_inj] at hvalue
    obtain ⟨hrange, rfl⟩ := hvalue
    exact ⟨hsigned m hm, hrange⟩
  · rintro ⟨rfl, hrange⟩
    cases hm : int64? (digits.filter Char.isDigit) with
    | none =>
        -- what has no 64 bits is not in the range of 32 bits with either sign
        have hlarge : 2 ^ 63 ≤ groupedValue digits := int64?_eq_none_iff.mp hm
        cases negative <;> simp at hrange <;> omega
    | some m =>
        refine ⟨m, rfl, ?_⟩
        rw [Option.ite_none_right_eq_some, checked_int32_iff, hsigned m hm]
        exact ⟨hrange, rfl⟩

/-- **A number that fits is read as it is written.** -/
theorem int32?_toString {n : Nat} (h : n ≤ 2147483647) : int32? (toString n) = some (n : Int) := by
  have hdigits : ∀ c ∈ Nat.toDigits 10 n, c.isDigit = true := fun c hc =>
    Nat.isDigit_of_mem_toDigits (by decide) (by decide) hc
  have hgrouped : IsGrouped (Nat.toDigits 10 n) := by
    obtain ⟨c, rest, hcons⟩ := List.exists_cons_of_ne_nil (Nat.toDigits_ne_nil (b := 10) (n := n))
    exact ⟨⟨c, by rw [hcons]; rfl, hdigits c (by simp [hcons])⟩, fun c hc => .inl (hdigits c hc)⟩
  have hvalue : groupedValue (Nat.toDigits 10 n) = n := by
    rw [groupedValue, List.filter_eq_self.mpr hdigits, ← Binary64.digitsValue_eq_ofDigitChars,
      Binary64.digitsValue_toDigits]
  refine int32?_eq_some_iff.mpr ⟨?_, by omega, by omega⟩
  rw [Nat.toString_eq_ofList_toDigits, Text.trim, String.toList_ofList, String.toList_ofList,
    Text.dropBlanks_of_isDigit hdigits]
  simpa only [hvalue] using WritesInt.unsigned hgrouped

/-- **Texts are read as the whole numbers of 32 bits that they write**, whatever the number of their digits
and commas, and all other texts are refused. On the way, digits are refused exactly if their value is no
number of 64 bits, and otherwise it is computed exactly, as is its negative. -/
theorem int32?_exact (s : String) (n : Int) :
    (int32? s = some n ↔
      WritesInt (Text.trim s).toList n ∧ -2147483648 ≤ n ∧ n ≤ 2147483647) ∧
    ∀ digits, (int64? digits = none ↔ 2 ^ 63 ≤ Nat.ofDigitChars 10 digits 0) ∧
      ∀ m, int64? digits = some m →
        m.toInt = Nat.ofDigitChars 10 digits 0 ∧ (-m).toInt = -(Nat.ofDigitChars 10 digits 0 : Int) := by
  refine ⟨int32?_eq_some_iff, fun digits => ⟨int64?_eq_none_iff, fun m hm => ?_⟩⟩
  have hvalue := int64?_eq_some_iff.mp hm
  exact ⟨hvalue, hvalue ▸ toInt_neg_of_int64? hm⟩

example : int32? " -2,147,483,648" = some (-2147483648) := by decide
example : int32? "00000000000000000000007" = some 7 := by decide
example : int32? "2147483648" = none := by decide

end PipelineExpansion.Yaml
