import PipelineExpansion.Text.Blank
import PipelineExpansion.Text.Letter

/-!
# Letters, digits and blanks

No character is two of these. The blanks are few enough to be listed (`blankNumbers`) and looked
up one by one in the table of letters.
-/

namespace PipelineExpansion.Text

/-- The numbers of the blanks. -/
def blankNumbers : List Nat :=
  [0x20, 0x85, 0xA0, 0x1680, 0x2028, 0x2029, 0x202F, 0x205F, 0x3000]
    ++ List.range' 0x9 5 ++ List.range' 0x2000 11

theorem toNat_mem_of_isBlank {c : Char} (h : isBlank c = true) : c.toNat ∈ blankNumbers := by
  simp only [isBlank, Bool.or_eq_true, Bool.and_eq_true, decide_eq_true_eq, Char.le_def,
    UInt32.le_iff_toNat_le, Char.toNat_val, ← Char.toNat_inj, Char.reduceToNat] at h
  simp only [blankNumbers, List.mem_append, List.mem_cons, List.not_mem_nil, List.mem_range'_1]
  omega

/-- A blank is no letter. -/
theorem isLetter_of_isBlank {c : Char} (h : isBlank c = true) : isLetter c = false := by
  have hall : ∀ n ∈ blankNumbers, alphabetic.has n = false := by decide +kernel
  exact hall c.toNat (toNat_mem_of_isBlank h)

/-- A digit is no blank. -/
theorem isBlank_of_isDigit {c : Char} (h : c.isDigit = true) : isBlank c = false := by
  have hall : ∀ n ∈ blankNumbers, ¬ (0x30 ≤ n ∧ n ≤ 0x39) := by decide
  rw [Bool.eq_false_iff]
  intro hblank
  exact hall c.toNat (toNat_mem_of_isBlank hblank) (Char.isDigit_iff_toNat.mp h)

/-- There are no blanks to be taken off digits. -/
theorem dropBlanks_of_isDigit {cs : List Char} (h : ∀ c ∈ cs, c.isDigit = true) :
    dropTrailingBlanks (dropBlanks cs) = cs := by
  have hdrop : ∀ cs : List Char, (∀ c ∈ cs, c.isDigit = true) → cs.dropWhile isBlank = cs := by
    intro cs h
    cases cs with
    | nil => rfl
    | cons c rest =>
        have hc := isBlank_of_isDigit (h c List.mem_cons_self)
        rw [List.dropWhile_cons, hc, if_neg Bool.false_ne_true]
  rw [dropBlanks, hdrop cs h, dropTrailingBlanks, hdrop, List.reverse_reverse]
  exact fun c hc => h c (List.mem_reverse.mp hc)

/-- A digit is no letter. -/
theorem isLetter_of_isDigit {c : Char} (h : c.isDigit = true) : isLetter c = false := by
  have hall : ∀ n ∈ List.range' 0x30 10, alphabetic.has n = false := by decide
  refine hall c.toNat ?_
  rw [Char.isDigit_iff_toNat] at h
  simp only [List.mem_range'_1, Char.reduceToNat] at h ⊢
  omega

end PipelineExpansion.Text
