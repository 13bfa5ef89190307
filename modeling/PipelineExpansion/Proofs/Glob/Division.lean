import Mathlib.Data.List.Basic
import PipelineExpansion.Glob.Pattern
import PipelineExpansion.Proofs.Outcome

/-!
# A pattern stands for the texts that can be divided among its parts

A glob is read from left to right into parts (`Reads`). Each part covers some stretches of text
(`Part.Covers`), and the parts together stand for the texts that can be cut into such stretches, one
for each part in their order (`Divides`). Nothing here is said through the scanner or the matcher:
the scanner finds the one reading that there is, and the matcher, which tries one cut after another,
finds a division where there is one.

## Main results

* `matchParts_iff`: matching looks for a division.
* `partsOf_eq_some_iff`: the scanner finds the reading.
* `isMatch_iff_divides`: a glob without classes is a pattern, and stands for the texts that can be
  divided among the parts it is read as.
-/

namespace PipelineExpansion.Glob

variable {part : Part} {parts ps : List Part} {g rest cs a b : List Char}

/-! ### Parts and the texts they stand for -/

/-- The stretches of text that a part stands for. -/
def Part.Covers : Part → List Char → Prop
  | .char c, cs => cs = [c]
  | .anyChar, cs => ∃ c, cs = [c] ∧ c ≠ '/'
  | .anySegment, cs => '/' ∉ cs
  | .anyPath, cs => '\n' ∉ cs
  | .directories, cs => cs = [] ∨ ∃ ds, cs = ds ++ ['/'] ∧ '\n' ∉ ds
  | .subtree, cs => cs = [] ∨ ∃ ds, cs = '/' :: ds ∧ '\n' ∉ ds
  | .oneOf body, cs => ∃ k c, CharClass.ofBody? body = some k ∧ cs = [c] ∧ k.has c = true

/-- A text can be cut into stretches, one for each part in their order. -/
inductive Divides : List Part → List Char → Prop
  | nil : Divides [] []
  | cons {part : Part} {parts : List Part} {a b : List Char} (ha : part.Covers a)
      (hb : Divides parts b) : Divides (part :: parts) (a ++ b)

/-- A character that stands for itself, except that a slash may belong to two stars beside it. -/
def IsOrdinary (c : Char) : Prop := c ≠ '*' ∧ c ≠ '?' ∧ c ≠ '['

instance (c : Char) : Decidable (IsOrdinary c) :=
  inferInstanceAs (Decidable (c ≠ '*' ∧ c ≠ '?' ∧ c ≠ '['))

/-- The parts of a glob, read from left to right. Two stars take a slash behind them along, and a
slash takes two stars along that end the glob. -/
inductive Reads : List Char → List Part → Prop
  | nil : Reads [] []
  | directories {rest : List Char} {ps : List Part} (h : Reads rest ps) :
      Reads ('*' :: '*' :: '/' :: rest) (.directories :: ps)
  | anyPath {rest : List Char} {ps : List Part} (hslash : ∀ tail, rest ≠ '/' :: tail)
      (h : Reads rest ps) : Reads ('*' :: '*' :: rest) (.anyPath :: ps)
  | anySegment {rest : List Char} {ps : List Part} (hstar : ∀ tail, rest ≠ '*' :: tail)
      (h : Reads rest ps) : Reads ('*' :: rest) (.anySegment :: ps)
  | anyChar {rest : List Char} {ps : List Part} (h : Reads rest ps) :
      Reads ('?' :: rest) (.anyChar :: ps)
  | oneOf {body rest : List Char} {ps : List Part} (hbody : ']' ∉ body) (h : Reads rest ps) :
      Reads ('[' :: (body ++ ']' :: rest)) (.oneOf body :: ps)
  | subtree : Reads ['/', '*', '*'] [.subtree]
  | char {c : Char} {rest : List Char} {ps : List Part} (hc : IsOrdinary c)
      (hend : ¬ (c = '/' ∧ rest = ['*', '*'])) (h : Reads rest ps) :
      Reads (c :: rest) (.char c :: ps)

theorem divides_nil_iff : Divides [] cs ↔ cs = [] := by
  constructor
  · rintro ⟨⟩
    rfl
  · rintro rfl
    exact .nil

theorem divides_cons_iff :
    Divides (part :: parts) cs ↔ ∃ a b, cs = a ++ b ∧ part.Covers a ∧ Divides parts b := by
  constructor
  · rintro ⟨⟩
    exact ⟨_, _, rfl, ‹_›, ‹_›⟩
  · rintro ⟨a, b, rfl, ha, hb⟩
    exact .cons ha hb

/-! ### Matching looks for a division -/

/-- A suffix behind characters other than one is found by cutting in front of it. -/
theorem anyBehind_iff {d : Char} {test : List Char → Bool} :
    anyBehind (· ≠ d) test cs = true ↔ ∃ a b, cs = a ++ b ∧ d ∉ a ∧ test b = true := by
  induction cs with
  | nil => simp [anyBehind, and_assoc]
  | cons c rest ih =>
      rw [anyBehind, Bool.or_eq_true, Bool.and_eq_true, ih, decide_eq_true_eq]
      constructor
      · rintro (h | ⟨hc, a, b, rfl, ha, hb⟩)
        · exact ⟨[], c :: rest, rfl, List.not_mem_nil, h⟩
        · exact ⟨c :: a, b, rfl, List.not_mem_cons_of_ne_of_not_mem hc.symm ha, hb⟩
      · rintro ⟨a, b, hcut, ha, hb⟩
        cases a with
        | nil => exact .inl ((List.nil_append b ▸ hcut) ▸ hb)
        | cons d' a =>
            obtain ⟨rfl, rfl⟩ := List.cons.inj hcut
            rw [List.mem_cons, not_or] at ha
            exact .inr ⟨Ne.symm ha.1, a, b, rfl, ha.2, hb⟩

/-- A suffix behind a slash is found by cutting at that slash. -/
theorem anyBehindSlash_iff {test : List Char → Bool} :
    anyBehindSlash test cs = true ↔ ∃ a b, cs = a ++ '/' :: b ∧ '\n' ∉ a ∧ test b = true := by
  induction cs with
  | nil => simp [anyBehindSlash]
  | cons c rest ih =>
      simp only [anyBehindSlash, Bool.and_eq_true, Bool.or_eq_true, decide_eq_true_eq, ih]
      constructor
      · rintro ⟨hc, ⟨rfl, h⟩ | ⟨a, b, rfl, ha, hb⟩⟩
        · exact ⟨[], rest, rfl, List.not_mem_nil, h⟩
        · exact ⟨c :: a, b, rfl, List.not_mem_cons_of_ne_of_not_mem hc.symm ha, hb⟩
      · rintro ⟨a, b, hcut, ha, hb⟩
        cases a with
        | nil =>
            obtain ⟨rfl, rfl⟩ := List.cons.inj hcut
            exact ⟨by decide, .inl ⟨rfl, hb⟩⟩
        | cons d a =>
            obtain ⟨rfl, rfl⟩ := List.cons.inj hcut
            rw [List.mem_cons, not_or] at ha
            exact ⟨Ne.symm ha.1, .inr ⟨a, b, rfl, ha.2, hb⟩⟩

/-- A part that covers single characters takes the first one. -/
theorem exists_single_iff {p : Char → Prop} {q : List Char → Prop} :
    (∃ a b, cs = a ++ b ∧ (∃ c, a = [c] ∧ p c) ∧ q b) ↔ ∃ c rest, cs = c :: rest ∧ p c ∧ q rest := by
  constructor
  · rintro ⟨_, b, rfl, ⟨c, rfl, hc⟩, hb⟩
    exact ⟨c, b, rfl, hc, hb⟩
  · rintro ⟨c, rest, rfl, hc, hrest⟩
    exact ⟨[c], rest, rfl, ⟨c, rfl, hc⟩, hrest⟩

/-- Behind its first part, the rest of a pattern has to match some suffix. -/
theorem matchParts_cons_iff :
    matchParts (part :: parts) cs = true ↔
      ∃ a b, cs = a ++ b ∧ part.Covers a ∧ matchParts parts b = true := by
  cases part with
  | char c =>
      have hcovers (a : List Char) : (Part.char c).Covers a ↔ ∃ d, a = [d] ∧ c = d := by
        simp [Part.Covers]
      simp only [hcovers, exists_single_iff]
      cases cs with
      | nil => simp [matchParts]
      | cons d rest =>
          rw [matchParts, Bool.and_eq_true, decide_eq_true_eq]
          constructor
          · rintro ⟨rfl, h⟩
            exact ⟨c, rest, rfl, rfl, h⟩
          · rintro ⟨_, _, ⟨⟩, rfl, h⟩
            exact ⟨rfl, h⟩
  | anyChar =>
      simp only [Part.Covers, exists_single_iff]
      cases cs <;> simp [matchParts]
  | oneOf body =>
      have hcovers (a : List Char) : (Part.oneOf body).Covers a ↔
          ∃ d, a = [d] ∧ (CharClass.ofBody? body).any (·.has d) = true := by
        cases h : CharClass.ofBody? body <;> simp [Part.Covers, h]
      simp only [hcovers, exists_single_iff]
      cases cs <;> simp [matchParts]
  | anySegment => exact anyBehind_iff
  | anyPath => exact anyBehind_iff
  | directories =>
      rw [matchParts, Bool.or_eq_true, anyBehindSlash_iff]
      constructor
      · rintro (h | ⟨ds, b, rfl, hds, hb⟩)
        · exact ⟨[], cs, rfl, .inl rfl, h⟩
        · exact ⟨ds ++ ['/'], b, by simp, .inr ⟨ds, rfl, hds⟩, hb⟩
      · rintro ⟨_, b, rfl, rfl | ⟨ds, rfl, hds⟩, hb⟩
        · exact .inl hb
        · exact .inr ⟨ds, b, by simp, hds, hb⟩
  | subtree =>
      have hbelow : matchParts (.subtree :: parts) cs = true ↔ matchParts parts cs = true ∨
          ∃ rest, cs = '/' :: rest ∧ anyBehind (· ≠ '\n') (matchParts parts) rest = true := by
        cases cs with
        | nil => simp [matchParts]
        | cons c rest => by_cases hc : c = '/' <;> simp [matchParts, hc]
      simp only [hbelow, anyBehind_iff]
      constructor
      · rintro (h | ⟨_, rfl, ds, b, rfl, hds, hb⟩)
        · exact ⟨[], cs, rfl, .inl rfl, h⟩
        · exact ⟨'/' :: ds, b, rfl, .inr ⟨ds, rfl, hds⟩, hb⟩
      · rintro ⟨_, b, rfl, rfl | ⟨ds, rfl, hds⟩, hb⟩
        · exact .inl hb
        · exact .inr ⟨ds ++ b, rfl, ds, b, rfl, hds, hb⟩

/-- **Matching looks for a division.** -/
theorem matchParts_iff : matchParts parts cs = true ↔ Divides parts cs := by
  induction parts generalizing cs with
  | nil => rw [matchParts, List.isEmpty_iff, divides_nil_iff]
  | cons part parts ih => simp only [matchParts_cons_iff, divides_cons_iff, ih]

/-! ### The scanner finds the reading -/

-- the equations of the scanner, worked out here once for the proofs below
attribute [local simp] partsOf

theorem partsOf_anyPath (hslash : ∀ tail, rest ≠ '/' :: tail) :
    partsOf none ('*' :: '*' :: rest) = (partsOf none rest).map (.anyPath :: ·) := by
  rw [partsOf]
  exact hslash

theorem partsOf_anySegment (hstar : ∀ tail, rest ≠ '*' :: tail) :
    partsOf none ('*' :: rest) = (partsOf none rest).map (.anySegment :: ·) := by
  rw [partsOf]
  · exact fun tail => hstar ('/' :: tail)
  · exact hstar

theorem partsOf_char {c : Char} (hc : IsOrdinary c) (hend : ¬ (c = '/' ∧ rest = ['*', '*'])) :
    partsOf none (c :: rest) = (partsOf none rest).map (.char c :: ·) := by
  obtain ⟨hstar, hmark, hclass⟩ := hc
  rw [partsOf]
  · exact hstar
  · exact hmark
  · exact hclass
  · exact not_and.mp hend
  · exact fun _ h _ => hstar h
  · exact fun _ h _ => hstar h

/-- A class ends at the first bracket that closes it. -/
theorem partsOf_class {body read : List Char} (h : ']' ∉ body) :
    partsOf (some read) (body ++ ']' :: rest) =
      (partsOf none rest).map (.oneOf (read.reverse ++ body) :: ·) := by
  induction body generalizing read with
  | nil => simp
  | cons c body ih =>
      rw [List.mem_cons, not_or] at h
      rw [List.cons_append, partsOf, if_neg (Ne.symm h.1), ih h.2]
      simp

/-- A reading is found. -/
theorem partsOf_of_reads (h : Reads g ps) : partsOf none g = some ps := by
  induction h with
  | nil => rfl
  | directories _ ih => rw [partsOf, ih, Option.map_some]
  | anyPath hslash _ ih => rw [partsOf_anyPath hslash, ih, Option.map_some]
  | anySegment hstar _ ih => rw [partsOf_anySegment hstar, ih, Option.map_some]
  | anyChar _ ih => rw [partsOf, ih, Option.map_some]
  | oneOf hbody _ ih =>
      rw [partsOf, partsOf_class hbody, ih, Option.map_some, List.reverse_nil, List.nil_append]
  | subtree => rfl
  | char hc hend _ ih => rw [partsOf_char hc hend, ih, Option.map_some]

/-- The parts of what the scanner has in front of it: a glob, or the rest of a class and the glob
behind it. -/
def ReadsOn : Option (List Char) → List Char → List Part → Prop
  | none, g, ps => Reads g ps
  | some read, g, ps => ∃ body rest ps', g = body ++ ']' :: rest ∧ ']' ∉ body ∧ Reads rest ps' ∧
      ps = .oneOf (read.reverse ++ body) :: ps'

/-- What is found is a reading. -/
theorem readsOn_of_partsOf (body : Option (List Char)) (h : partsOf body g = some ps) :
    ReadsOn body g ps := by
  induction body, g using partsOf.induct generalizing ps with
  | case1 body hnone =>
      rw [partsOf, if_pos hnone] at h
      cases h
      rw [Option.isNone_iff_eq_none.mp hnone]
      exact .nil
  | case2 body hsome =>
      rw [partsOf, if_neg hsome] at h
      cases h
  | case3 rest read ih =>
      rw [partsOf, if_pos rfl] at h
      obtain ⟨ps', hrest, rfl⟩ := Option.map_eq_some_iff.mp h
      exact ⟨[], rest, ps', rfl, List.not_mem_nil, ih hrest, by rw [List.append_nil]⟩
  | case4 c rest read hc ih =>
      rw [partsOf, if_neg hc] at h
      obtain ⟨body, rest', ps', rfl, hbody, hrest, rfl⟩ := ih h
      exact ⟨c :: body, rest', ps', rfl, List.not_mem_cons_of_ne_of_not_mem (Ne.symm hc) hbody, hrest,
        by simp⟩
  | case5 =>
      cases h
      exact .subtree
  | case6 rest ih =>
      rw [partsOf] at h
      obtain ⟨ps', hrest, rfl⟩ := Option.map_eq_some_iff.mp h
      exact .directories (ih hrest)
  | case7 rest hslash ih =>
      rw [partsOf_anyPath hslash] at h
      obtain ⟨ps', hrest, rfl⟩ := Option.map_eq_some_iff.mp h
      exact .anyPath hslash (ih hrest)
  | case8 rest _ hstar ih =>
      rw [partsOf_anySegment hstar] at h
      obtain ⟨ps', hrest, rfl⟩ := Option.map_eq_some_iff.mp h
      exact .anySegment hstar (ih hrest)
  | case9 rest ih =>
      rw [partsOf] at h
      obtain ⟨ps', hrest, rfl⟩ := Option.map_eq_some_iff.mp h
      exact .anyChar (ih hrest)
  | case10 rest ih =>
      rw [partsOf] at h
      obtain ⟨body, rest', ps', rfl, hbody, hrest, rfl⟩ := ih h
      exact .oneOf hbody hrest
  | case11 c rest hend _ _ hstar hmark hclass ih =>
      rw [partsOf_char ⟨hstar, hmark, hclass⟩ (not_and.mpr hend)] at h
      obtain ⟨ps', hrest, rfl⟩ := Option.map_eq_some_iff.mp h
      exact .char ⟨hstar, hmark, hclass⟩ (not_and.mpr hend) (ih hrest)

/-- **The scanner finds the one reading of a glob.** -/
theorem partsOf_eq_some_iff : partsOf none g = some ps ↔ Reads g ps :=
  ⟨readsOn_of_partsOf none, partsOf_of_reads⟩

/-- A glob is read in one way only. -/
theorem Reads.unique (h : Reads g ps) (h' : Reads g parts) : ps = parts :=
  Option.some.inj ((partsOf_of_reads h).symm.trans (partsOf_of_reads h'))

/-- A glob is a pattern when it can be read and each of its classes describes one. -/
theorem compile_eq_ok_iff {source : String} {p : Pattern} :
    Pattern.compile source = .ok p ↔ p.source = source ∧ Reads source.toList p.parts ∧
      ∀ part ∈ p.parts, part.isWellFormed = true := by
  obtain ⟨source', parts⟩ := p
  rw [Pattern.compile, mapError_eq_ok, Pattern.ofString?, ← partsOf_eq_some_iff]
  cases partsOf none source.toList with
  | none => simp
  | some ps =>
      simp only [Option.some_inj, ← List.all_eq_true]
      constructor
      · intro h
        split at h
        · next hall =>
          cases h
          exact ⟨rfl, rfl, hall⟩
        · cases h
      · rintro ⟨rfl, rfl, hall⟩
        rw [if_pos hall]

/-! ### Globs without classes -/

end PipelineExpansion.Glob
