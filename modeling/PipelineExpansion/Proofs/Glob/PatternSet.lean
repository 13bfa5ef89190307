import PipelineExpansion.Proofs.Glob.Division

/-!
# Sets of patterns

An entry of a set is the text of a pattern, with `!` in front of it if the pattern excludes. Entries
make a set when the text of each is a pattern (`exists_compile_iff`), and what the set admits is a
matter of which entries there are, not of their order (`exists_compile_of_mem_iff`).
-/

namespace PipelineExpansion.Glob

variable {entries : List String} {s t : PatternSet} {p q : Pattern}

/-! ### Ordinary characters in front -/

/-- A glob stays one when an ordinary character in front of it is taken away. -/
theorem Reads.exists_of_cons {c : Char} {rest : List Char} {ps : List Part} (h : Reads (c :: rest) ps)
    (hc : IsOrdinary c) (hparts : ∀ part ∈ ps, part.isWellFormed = true) :
    ∃ ps', Reads rest ps' ∧ ∀ part ∈ ps', part.isWellFormed = true := by
  obtain ⟨hstar, hmark, hclass⟩ := hc
  cases h with
  | directories | anyPath | anySegment => exact absurd rfl hstar
  | anyChar => exact absurd rfl hmark
  | oneOf => exact absurd rfl hclass
  | subtree => exact ⟨[.anyPath], .anyPath nofun .nil, List.forall_mem_singleton.mpr rfl⟩
  | char _ _ hrest => exact ⟨_, hrest, (List.forall_mem_cons.mp hparts).2⟩

theorem Reads.exists_of_append {front rest : List Char} {ps : List Part}
    (h : Reads (front ++ rest) ps) (hfront : ∀ c ∈ front, IsOrdinary c)
    (hparts : ∀ part ∈ ps, part.isWellFormed = true) :
    ∃ ps', Reads rest ps' ∧ ∀ part ∈ ps', part.isWellFormed = true := by
  induction front generalizing ps with
  | nil => exact ⟨ps, h, hparts⟩
  | cons c front ih =>
      obtain ⟨hc, hfront⟩ := List.forall_mem_cons.mp hfront
      obtain ⟨ps', h, hparts⟩ := h.exists_of_cons hc hparts
      exact ih h hfront hparts

/-- What is left of a pattern behind ordinary characters is a pattern. -/
theorem exists_compile_of_append {source rest : String} {front : List Char}
    (hsource : source.toList = front ++ rest.toList) (hfront : ∀ c ∈ front, IsOrdinary c)
    (h : ∃ p, Pattern.compile source = .ok p) : ∃ p, Pattern.compile rest = .ok p := by
  obtain ⟨p, hp⟩ := h
  obtain ⟨-, hreads, hparts⟩ := compile_eq_ok_iff.mp hp
  rw [hsource] at hreads
  obtain ⟨ps, hps, hall⟩ := hreads.exists_of_append hfront hparts
  exact ⟨⟨rest, ps⟩, compile_eq_ok_iff.mpr ⟨rfl, hps, hall⟩⟩

/-! ### Entries -/

/-- Whether an entry excludes, and the text of its pattern. -/
def entryParts (entry : String) : Bool × String :=
  match (Text.trim entry).toList with
  | '!' :: pattern => (true, String.ofList pattern)
  | pattern => (false, String.ofList pattern)

theorem entryParts_excluded {entry : String} {pattern : List Char}
    (h : (Text.trim entry).toList = '!' :: pattern) :
    entryParts entry = (true, String.ofList pattern) := by
  simp only [entryParts, h]

theorem entryParts_included {entry : String} (h : ∀ rest, (Text.trim entry).toList ≠ '!' :: rest) :
    entryParts entry = (false, Text.trim entry) := by
  rw [entryParts]
  split
  · next pattern htrim => exact absurd htrim (h pattern)
  · rw [String.ofList_toList]

/-- The patterns of a set that exclude, or those that include. -/
def PatternSet.patterns (s : PatternSet) : Bool → List Pattern
  | true => s.excludes
  | false => s.includes

/-- A set with one more pattern. -/
def PatternSet.put (s : PatternSet) (excludes : Bool) (p : Pattern) : PatternSet :=
  if excludes then { s with excludes := p :: s.excludes } else { s with includes := p :: s.includes }

theorem PatternSet.mem_patterns_put (excludes b : Bool) :
    q ∈ (s.put excludes p).patterns b ↔ (excludes = b ∧ p = q) ∨ q ∈ s.patterns b := by
  cases excludes <;> cases b <;> simp [put, patterns, eq_comm]

/-- The first entry puts its pattern into the set of the others. -/
theorem PatternSet.compile_cons (entry : String) (rest : List String) :
    compile (entry :: rest) = (do
      let p ← Pattern.compile (entryParts entry).2
      let s ← compile rest
      return s.put (entryParts entry).1 p) := by
  rw [compile]
  split
  · next pattern htrim =>
    rw [entryParts_excluded htrim]
    rfl
  · next hmark =>
    simp only [entryParts_included hmark, String.ofList_toList]
    rfl

/-- The patterns of a set are those of its entries. -/
theorem PatternSet.mem_patterns_iff (h : compile entries = .ok s) (b : Bool) :
    p ∈ s.patterns b ↔
      ∃ e ∈ entries, (entryParts e).1 = b ∧ Pattern.compile (entryParts e).2 = .ok p := by
  induction entries generalizing s with
  | nil =>
      cases h
      cases b <;> simp [patterns]
  | cons entry rest ih =>
      rw [compile_cons] at h
      obtain ⟨q, hq, h⟩ := bind_eq_ok.mp h
      obtain ⟨s', hs', h⟩ := bind_eq_ok.mp h
      obtain rfl := Except.ok.inj h
      rw [mem_patterns_put, ih hs']
      simp only [List.mem_cons, exists_eq_or_imp, hq, Except.ok.injEq]

/-- Entries make a set when each has a pattern. -/
theorem PatternSet.exists_compile_iff :
    (∃ s, compile entries = .ok s) ↔
      ∀ e ∈ entries, ∃ p, Pattern.compile (entryParts e).2 = .ok p := by
  induction entries with
  | nil => exact ⟨fun _ => List.forall_mem_nil _, fun _ => ⟨_, rfl⟩⟩
  | cons entry rest ih =>
      rw [List.forall_mem_cons, ← ih, compile_cons]
      constructor
      · rintro ⟨_, h⟩
        obtain ⟨p, hp, h⟩ := bind_eq_ok.mp h
        obtain ⟨s, hs, -⟩ := bind_eq_ok.mp h
        exact ⟨⟨p, hp⟩, s, hs⟩
      · rintro ⟨⟨p, hp⟩, s, hs⟩
        exact ⟨_, bind_eq_ok.mpr ⟨p, hp, bind_eq_ok.mpr ⟨s, hs, rfl⟩⟩⟩

/-- What is admitted depends on which patterns there are, not on their order. -/
theorem PatternSet.admits_congr (h : ∀ b p, p ∈ s.patterns b ↔ p ∈ t.patterns b) (path : String) :
    s.admits path = t.admits path := by
  have hany (b : Bool) :
      (s.patterns b).any (·.isMatch path) = (t.patterns b).any (·.isMatch path) := by
    rw [Bool.eq_iff_iff, List.any_eq_true, List.any_eq_true]
    simp only [h]
  have hempty : (s.patterns false).isEmpty = (t.patterns false).isEmpty := by
    rw [Bool.eq_iff_iff, List.isEmpty_iff, List.isEmpty_iff, List.eq_nil_iff_forall_not_mem,
      List.eq_nil_iff_forall_not_mem]
    simp only [h]
  exact congrArg₂ (· && ·) (congrArg₂ (· || ·) hempty (hany false)) (congrArg (!·) (hany true))

/-- **The same entries in another order** make a set too, and it admits the same paths. -/
theorem PatternSet.exists_compile_of_mem_iff {others : List String} (hs : compile entries = .ok s)
    (h : ∀ e, e ∈ others ↔ e ∈ entries) :
    ∃ t, compile others = .ok t ∧ ∀ path, t.admits path = s.admits path := by
  have hall := exists_compile_iff.mp ⟨s, hs⟩
  obtain ⟨t, ht⟩ := exists_compile_iff.mpr fun e he => hall e ((h e).mp he)
  refine ⟨t, ht, admits_congr fun b p => ?_⟩
  simp only [mem_patterns_iff hs, mem_patterns_iff ht, h]

end PipelineExpansion.Glob
