import PipelineExpansion.Proofs.Glob.Division

/-!
# What a class of characters matches

The body of a class lists characters and ranges of them, behind a `!` if the class is for all other
characters. Read from left to right, a hyphen between two characters makes a range of the two, and all other
characters stand for themselves (`listedRanges`); this is said without the reader of classes.

The reader gives a meaning of its own to two ampersands, hyphens or tildes: they combine the lists on either
side of them. It does so where a range might begin, and for hyphens where one might end, but not inside of a
range. Where no such pair is met (`hasOperator`) the reader finds the ranges that are listed. Where one is,
the characters of the pair may be lost, and others with them: a class of `a`, two ampersands and `b` matches
nothing.

## Main results

* `readRanges_eq`: without such pairs, the reader finds the ranges of a list.
* `isMatch_iff_isListed`: the class is a pattern then, and matches the paths of one character that is listed,
  or is not listed behind a `!`.
-/

namespace PipelineExpansion.Glob

variable {c low high : Char} {rest cs body : List Char}

/-! ### What is listed -/

/-- What a class lists: its body without the `!` in front that negates it. -/
def listedPart (body : List Char) : List Char := if body.head? = some '!' then body.tail else body

/-- The ranges of a list, from left to right: a hyphen between two characters makes a range of them, and every
other character is a range of its own. -/
def listedRanges : List Char → CharRanges
  | low :: '-' :: high :: rest => (low, high) :: listedRanges rest
  | c :: rest => (c, c) :: listedRanges rest
  | [] => []

/-- A character is in one of the ranges of a list. -/
def IsListed (c : Char) (cs : List Char) : Prop := ∃ r ∈ listedRanges cs, r.1 ≤ c ∧ c ≤ r.2

instance (c : Char) (cs : List Char) : Decidable (IsListed c cs) :=
  inferInstanceAs (Decidable (∃ r ∈ listedRanges cs, r.1 ≤ c ∧ c ≤ r.2))

/-- Whether two equal characters that combine lists stand where a range begins or, two hyphens, where one
ends. -/
def hasOperator : List Char → Bool
  | low :: '-' :: high :: rest => low = '-' || high = '-' || hasOperator rest
  | c :: rest => (['&', '-', '~'].contains c && rest.head? = some c) || hasOperator rest
  | [] => false

theorem has_listedRanges : CharRanges.has (listedRanges cs) c = true ↔ IsListed c cs := by
  simp [CharRanges.has, IsListed]

/-! ### Reading a list -/

section

variable {current : CharRanges}

theorem readRanges_range (hlow : low ≠ '-') (hhigh : high ≠ '-') (h : low ≤ high) :
    readRanges current (low :: '-' :: high :: rest) = readRanges ((low, high) :: current) rest := by
  rw [readRanges, if_pos h]
  · exact hlow
  · exact hhigh

/-- What is no range and no pair is a character that stands for itself. -/
theorem readRanges_single (hrange : ∀ high tail, rest ≠ '-' :: high :: tail)
    (hpair : ['&', '-', '~'].contains c = true → rest.head? ≠ some c) :
    readRanges current (c :: rest) = readRanges ((c, c) :: current) rest := by
  have hnopair (d : Char) (hd : ['&', '-', '~'].contains d = true) (tail : List Char) (hc : c = d)
      (hrest : rest = d :: tail) : False := by
    subst hc hrest
    exact hpair hd rfl
  rw [readRanges]
  · exact hnopair '&' rfl
  · exact hnopair '-' rfl
  · exact hnopair '~' rfl
  · exact hrange '-'
  · exact hrange

/-- **Without pairs the reader finds the ranges of a list**, behind those that it has read. -/
theorem readRanges_eq (hpairs : hasOperator cs = false) (hranges : ∀ r ∈ listedRanges cs, r.1 ≤ r.2) :
    readRanges current cs = some (current.reverse ++ listedRanges cs, []) := by
  induction cs using listedRanges.induct generalizing current with
  | case1 low high rest ih =>
      rw [hasOperator, Bool.or_eq_false_iff, Bool.or_eq_false_iff, decide_eq_false_iff_not,
        decide_eq_false_iff_not] at hpairs
      rw [listedRanges, List.forall_mem_cons] at hranges
      rw [readRanges_range hpairs.1.1 hpairs.1.2 hranges.1, ih hpairs.2 hranges.2, listedRanges]
      simp
  | case2 c rest hrange ih =>
      rw [hasOperator, Bool.or_eq_false_iff, Bool.and_eq_false_imp] at hpairs
      · rw [listedRanges, List.forall_mem_cons] at hranges
        · rw [readRanges_single hrange (by simpa using hpairs.1), ih hpairs.2 hranges.2, listedRanges]
          · simp
          · exact hrange
        · exact hrange
      · exact hrange
  | case3 => simp [readRanges, listedRanges]

end

/-- Without pairs at most one hyphen stands in front. -/
theorem head?_ne_of_hyphen (hpairs : hasOperator ('-' :: rest) = false) : rest.head? ≠ some '-' := by
  intro hhead
  obtain ⟨tail, rfl⟩ := List.head?_eq_some_iff.mp hhead
  cases tail with
  | nil => cases hpairs
  | cons high tail => simp [hasOperator] at hpairs

/-- Hyphens in front are characters for the reader from the outset. -/
theorem readRanges_hyphens (hpairs : hasOperator cs = false) :
    readRanges ((cs.takeWhile (· = '-')).map fun c => (c, c)) (cs.dropWhile (· = '-')) =
      readRanges [] cs := by
  cases cs with
  | nil => rfl
  | cons c rest =>
      by_cases hc : c = '-'
      · subst hc
        have hhead := head?_ne_of_hyphen hpairs
        have hrange : ∀ high tail, rest ≠ '-' :: high :: tail := by
          rintro high tail rfl
          exact hhead rfl
        rw [readRanges_single hrange fun _ => hhead]
        cases rest with
        | nil => rfl
        | cons d tail =>
            have hd : ¬ d = '-' := fun hd => hhead (congrArg some hd)
            simp [hd]
      · simp [hc]

theorem ofBody?_eq (hne : listedPart body ≠ []) (hpairs : hasOperator (listedPart body) = false)
    (hranges : ∀ r ∈ listedRanges (listedPart body), r.1 ≤ r.2) :
    CharClass.ofBody? body = some ⟨body.head? = some '!', listedRanges (listedPart body), []⟩ := by
  have hlisted : (if body.head? = some '!' then body.drop 1 else body) = listedPart body := by
    rw [listedPart, List.drop_one]
  have hempty : ¬ (listedPart body).isEmpty = true := by simpa using hne
  simp only [CharClass.ofBody?, hlisted, if_neg hempty, readRanges_hyphens hpairs,
    readRanges_eq hpairs hranges, List.reverse_nil, List.nil_append]

/-! ### Matching -/

theorem has_single_iff {negated : Bool} :
    CharClass.has ⟨negated, listedRanges cs, []⟩ c = true ↔ (IsListed c cs ↔ negated = false) := by
  rw [CharClass.has, List.foldl_nil, bne_iff_ne, ← has_listedRanges]
  cases CharRanges.has (listedRanges cs) c <;> cases negated <;> simp

/-- A glob that is one class is read as that. -/
theorem reads_class (hbody : ']' ∉ body) : Reads ('[' :: (body ++ [']'])) [.oneOf body] :=
  .oneOf hbody .nil

/-- Alone in a pattern, a class matches one character. -/
theorem matchParts_class_iff {k : CharClass} (h : CharClass.ofBody? body = some k) :
    matchParts [.oneOf body] cs = true ↔ ∃ c, cs = [c] ∧ k.has c = true := by
  rw [matchParts_iff, divides_cons_iff]
  constructor
  · rintro ⟨_, b, rfl, ⟨k', c, hk', rfl, hc⟩, hb⟩
    obtain rfl := divides_nil_iff.mp hb
    obtain rfl := Option.some.inj (h.symm.trans hk')
    exact ⟨c, rfl, hc⟩
  · rintro ⟨c, rfl, hc⟩
    exact ⟨[c], [], rfl, ⟨k, c, h, rfl, hc⟩, .nil⟩

/-- **A class matches the characters that its body lists**, or behind a `!` those that it does not list: it is
a pattern, and matches the paths that are one such character. The body may hold any characters but the
bracket that closes it. -/
theorem isMatch_iff_isListed (hbody : ']' ∉ body) (hne : listedPart body ≠ [])
    (hranges : ∀ r ∈ listedRanges (listedPart body), r.1 ≤ r.2)
    (hpairs : hasOperator (listedPart body) = false) :
    ∃ p, Pattern.compile (String.ofList ('[' :: (body ++ [']']))) = .ok p ∧
      ∀ path, p.isMatch path = true ↔
        ∃ c, path.toList = [c] ∧ (IsListed c (listedPart body) ↔ body.head? ≠ some '!') := by
  have hclass := ofBody?_eq hne hpairs hranges
  refine ⟨⟨_, [.oneOf body]⟩, compile_eq_ok_iff.mpr ⟨rfl, ?_, ?_⟩, fun path => ?_⟩
  · rw [String.toList_ofList]
    exact reads_class hbody
  · refine List.forall_mem_singleton.mpr ?_
    rw [Part.isWellFormed, hclass]
    rfl
  · simp only [Pattern.isMatch, matchParts_class_iff hclass, has_single_iff, decide_eq_false_iff_not]

/-- Behind the `!`, this body lists a hyphen, the characters from `x` to `z`, and three that stand for
themselves. -/
def metacharacters : List Char := "!-x-z&[^".toList

theorem isMatch_iff_isListed_metacharacters :
    ']' ∉ metacharacters ∧ listedPart metacharacters ≠ [] ∧
      (∀ r ∈ listedRanges (listedPart metacharacters), r.1 ≤ r.2) ∧
      hasOperator (listedPart metacharacters) = false ∧
      ∃ p, Pattern.compile "[!-x-z&[^]" = .ok p ∧ p.isMatch "a" = true ∧
        (∀ c ∈ "-xyz&[^".toList, p.isMatch (String.ofList [c]) = false) ∧ p.isMatch "ab" = false := by
  have hbody : ']' ∉ metacharacters := by decide
  have hne : listedPart metacharacters ≠ [] := by decide
  have hranges : ∀ r ∈ listedRanges (listedPart metacharacters), r.1 ≤ r.2 := by decide
  have hpairs : hasOperator (listedPart metacharacters) = false := by decide
  obtain ⟨p, hp, hmatch⟩ := isMatch_iff_isListed hbody hne hranges hpairs
  refine ⟨hbody, hne, hranges, hpairs, p, hp, (hmatch "a").mpr ⟨'a', rfl, by decide⟩, fun c hc => ?_, ?_⟩
  · have hall : ("-xyz&[^".toList.all fun c => IsListed c (listedPart metacharacters)) = true := by decide
    rw [← Bool.not_eq_true, hmatch, String.toList_ofList]
    rintro ⟨d, hd, hlisted⟩
    obtain rfl := List.singleton_inj.mp hd
    exact hlisted.mp (of_decide_eq_true (List.all_eq_true.mp hall c hc)) rfl
  · rw [← Bool.not_eq_true, hmatch]
    rintro ⟨c, hc, -⟩
    cases hc

/-- Two ampersands combine the lists on either side of them, so that a class of `a`, an ampersand and `b`
matches nothing: no character is `a` and `b`. -/
theorem doubledAmpersand_matchesNothing :
    ¬ ∀ body : List Char, ']' ∉ body → listedPart body ≠ [] →
      (∀ r ∈ listedRanges (listedPart body), r.1 ≤ r.2) →
      ∃ p, Pattern.compile (String.ofList ('[' :: (body ++ [']']))) = .ok p ∧
        ∀ path, p.isMatch path = true ↔
          ∃ c, path.toList = [c] ∧ (IsListed c (listedPart body) ↔ body.head? ≠ some '!') := by
  intro hall
  obtain ⟨p, hp, hmatch⟩ := hall ['a', '&', '&', 'b'] (by decide) (by decide) (by decide)
  have hlisted : p.isMatch "a" = true := (hmatch "a").mpr ⟨'a', rfl, by decide⟩
  have hclass : CharClass.ofBody? ['a', '&', '&', 'b'] =
      some ⟨false, [('a', 'a')], [(.both, [('b', 'b')])]⟩ := by
    cbv
  obtain ⟨-, hreads, -⟩ := compile_eq_ok_iff.mp hp
  rw [String.toList_ofList] at hreads
  rw [Pattern.isMatch, hreads.unique (reads_class (by decide)), matchParts_class_iff hclass] at hlisted
  obtain ⟨c, hc, hboth⟩ := hlisted
  obtain rfl : 'a' = c := List.singleton_inj.mp hc
  exact absurd hboth (by decide)

end PipelineExpansion.Glob
