import Mathlib.Computability.RegularExpressions

/-!
# Regular expressions over characters

The expressions that formats are usually given in: a word, a character of a class, one or more of something,
something that may be missing. For each there is a lemma that says what it matches. Much of what a format
rules out can be read off the expression: the characters that its texts are made of (`mem_letters`) and
those that they begin with (`mem_firsts`).
-/

namespace PipelineExpansion.Text

open RegularExpression (char)

variable {r r' : RegularExpression Char} {c : Char} {cs ds : List Char}

/-- A text matches an expression as a whole. -/
def Matches (r : RegularExpression Char) (s : String) : Prop := s.toList ∈ r.matches'

instance (r : RegularExpression Char) (s : String) : Decidable (Matches r s) :=
  decidable_of_iff _ (r.rmatch_iff_matches' s.toList)

/-- One of some characters. -/
def oneOf (cs : List Char) : RegularExpression Char := cs.foldr (fun c r => char c + r) 0

/-- A fixed text. -/
def word (s : String) : RegularExpression Char := s.toList.foldr (fun c r => char c * r) 1

/-- Something that may be missing. -/
def optional (r : RegularExpression Char) : RegularExpression Char := 1 + r

/-- One or more of something. -/
def several (r : RegularExpression Char) : RegularExpression Char := r * r.star

/-! ### What matches -/

@[simp] theorem mem_one : cs ∈ (1 : RegularExpression Char).matches' ↔ cs = [] := Iff.rfl

@[simp] theorem mem_add : cs ∈ (r + r').matches' ↔ cs ∈ r.matches' ∨ cs ∈ r'.matches' := by
  rw [RegularExpression.matches'_add, Language.mem_add]

theorem mem_mul : cs ∈ (r * r').matches' ↔ ∃ x ∈ r.matches', ∃ y ∈ r'.matches', x ++ y = cs := by
  rw [RegularExpression.matches'_mul, Language.mem_mul]

@[simp] theorem mem_char : cs ∈ (char c).matches' ↔ cs = [c] := Iff.rfl

theorem mem_char_mul : cs ∈ (char c * r).matches' ↔ ∃ y ∈ r.matches', cs = c :: y := by
  rw [mem_mul]
  constructor
  · rintro ⟨_, rfl, y, hy, rfl⟩
    exact ⟨y, hy, rfl⟩
  · rintro ⟨y, hy, rfl⟩
    exact ⟨[c], rfl, y, hy, rfl⟩

@[simp] theorem mem_oneOf : cs ∈ (oneOf ds).matches' ↔ ∃ c ∈ ds, cs = [c] := by
  induction ds with
  | nil => simp [oneOf]
  | cons d ds ih =>
      rw [oneOf, List.foldr_cons, ← oneOf, mem_add, mem_char, ih]
      simp

theorem mem_oneOf_mul : cs ∈ (oneOf ds * r).matches' ↔ ∃ c ∈ ds, ∃ y ∈ r.matches', cs = c :: y := by
  simp only [mem_mul, mem_oneOf]
  constructor
  · rintro ⟨_, ⟨c, hc, rfl⟩, y, hy, rfl⟩
    exact ⟨c, hc, y, hy, rfl⟩
  · rintro ⟨c, hc, y, hy, rfl⟩
    exact ⟨[c], ⟨c, hc, rfl⟩, y, hy, rfl⟩

@[simp] theorem mem_optional : cs ∈ (optional r).matches' ↔ cs = [] ∨ cs ∈ r.matches' := by
  rw [optional, mem_add, mem_one]

theorem mem_optional_mul :
    cs ∈ (optional r * r').matches' ↔ cs ∈ r'.matches' ∨ cs ∈ (r * r').matches' := by
  simp only [mem_mul, mem_optional, or_and_right, exists_or, exists_eq_left, List.nil_append,
    exists_eq_right]

@[simp] theorem mem_word {s : String} : cs ∈ (word s).matches' ↔ cs = s.toList := by
  rw [word]
  induction s.toList generalizing cs with
  | nil => exact mem_one
  | cons c rest ih =>
      rw [List.foldr_cons, mem_char_mul]
      simp only [ih, exists_eq_left]

theorem mem_word_mul {s : String} : cs ∈ (word s * r).matches' ↔ ∃ y ∈ r.matches', cs = s.toList ++ y := by
  simp only [mem_mul, mem_word, exists_eq_left, eq_comm]

/-- Any number of characters of a class. -/
@[simp] theorem mem_star_oneOf : cs ∈ (oneOf ds).star.matches' ↔ ∀ c ∈ cs, c ∈ ds := by
  rw [RegularExpression.matches'_star, Language.mem_kstar]
  constructor
  · rintro ⟨pieces, rfl, hpieces⟩ c hc
    obtain ⟨piece, hpiece, hc⟩ := List.mem_flatten.mp hc
    obtain ⟨d, hd, rfl⟩ := mem_oneOf.mp (hpieces piece hpiece)
    exact List.mem_singleton.mp hc ▸ hd
  · intro h
    refine ⟨cs.map fun c => [c], ?_, ?_⟩
    · simp [← List.flatMap_def]
    · intro piece hpiece
      obtain ⟨c, hc, rfl⟩ := List.mem_map.mp hpiece
      exact mem_oneOf.mpr ⟨c, h c hc, rfl⟩

/-- One or more characters of a class. -/
@[simp] theorem mem_several_oneOf :
    cs ∈ (several (oneOf ds)).matches' ↔ cs ≠ [] ∧ ∀ c ∈ cs, c ∈ ds := by
  simp only [several, mem_oneOf_mul, mem_star_oneOf]
  cases cs with
  | nil => simp
  | cons c cs => simp

/-! ### Letters -/

/-- The characters of an expression. -/
def letters : RegularExpression Char → List Char
  | .zero => []
  | .epsilon => []
  | .char c => [c]
  | .plus r r' => letters r ++ letters r'
  | .comp r r' => letters r ++ letters r'
  | .star r => letters r

/-- The characters that a match may begin with. -/
def firsts : RegularExpression Char → List Char
  | .zero => []
  | .epsilon => []
  | .char c => [c]
  | .plus r r' => firsts r ++ firsts r'
  | .comp r r' => firsts r ++ if r.matchEpsilon then firsts r' else []
  | .star r => firsts r

/-- **A match is made of the characters of the expression.** -/
theorem mem_letters (h : cs ∈ r.matches') (hc : c ∈ cs) : c ∈ letters r := by
  induction r generalizing cs with
  | zero => exact absurd h (Language.notMem_zero cs)
  | epsilon =>
      rw [mem_one.mp h] at hc
      exact absurd hc List.not_mem_nil
  | char d =>
      rw [mem_char.mp h] at hc
      exact hc
  | plus r r' ih ih' => exact List.mem_append.mpr ((mem_add.mp h).imp (ih · hc) (ih' · hc))
  | comp r r' ih ih' =>
      obtain ⟨x, hx, y, hy, rfl⟩ := mem_mul.mp h
      exact List.mem_append.mpr ((List.mem_append.mp hc).imp (ih hx) (ih' hy))
  | star r ih =>
      obtain ⟨pieces, rfl, hpieces⟩ := Language.mem_kstar.mp h
      obtain ⟨piece, hpiece, hc⟩ := List.mem_flatten.mp hc
      exact ih (hpieces piece hpiece) hc

theorem matchEpsilon_of_nil_mem (h : [] ∈ r.matches') : r.matchEpsilon = true :=
  (r.rmatch_iff_matches' []).mpr h

/-- **A match begins with one of the first characters of the expression.** -/
theorem mem_firsts (h : c :: cs ∈ r.matches') : c ∈ firsts r := by
  induction r generalizing cs with
  | zero => exact absurd h (Language.notMem_zero _)
  | epsilon => exact absurd (mem_one.mp h) (List.cons_ne_nil c cs)
  | char d => exact List.mem_singleton.mpr (List.cons.inj (mem_char.mp h)).1
  | plus r r' ih ih' => exact List.mem_append.mpr ((mem_add.mp h).imp ih ih')
  | comp r r' ih ih' =>
      obtain ⟨x, hx, y, hy, heq⟩ := mem_mul.mp h
      rw [firsts, List.mem_append]
      cases x with
      | nil =>
          rw [if_pos (matchEpsilon_of_nil_mem hx)]
          rw [List.nil_append] at heq
          exact .inr (ih' (heq ▸ hy))
      | cons d x =>
          obtain ⟨rfl, -⟩ := List.cons.inj heq
          exact .inl (ih hx)
  | star r ih =>
      obtain ⟨pieces, heq, hpieces⟩ := (Language.mem_kstar_iff_exists_nonempty).mp h
      cases pieces with
      | nil => exact absurd heq (List.cons_ne_nil c cs)
      | cons piece pieces =>
          obtain ⟨hpiece, hne⟩ := hpieces piece List.mem_cons_self
          obtain ⟨d, rest, rfl⟩ := List.exists_cons_of_ne_nil hne
          obtain ⟨rfl, -⟩ := List.cons.inj heq
          exact ih hpiece

/-- What holds of each of some characters is decided along their list, not for all characters there are. -/
theorem forall_mem_of_all {p : Char → Prop} [DecidablePred p] (h : cs.all (p ·) = true) : ∀ c ∈ cs, p c :=
  fun c hc => of_decide_eq_true (List.all_eq_true.mp h c hc)

/-- A text with a foreign character does not match. -/
theorem not_matches_of_mem {s : String} (hc : c ∈ s.toList) (h : c ∉ letters r) : ¬ Matches r s :=
  fun hs => h (mem_letters hs hc)

end PipelineExpansion.Text
