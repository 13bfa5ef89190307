import PipelineExpansion.Proofs.Glob.Division

/-!
# A glob with `/**` behind it

`/**` at the end of a glob is there for a directory and all that is below it. Put behind a glob, it
becomes a part of its own, except where the glob ends in two stars: these take the slash along and
then match nothing but directories. Where the two stars are a part of their own, this comes to the
same; where they belong to a `/**` already, the slash in front of them is needed now, and the
directory itself is lost.

## Main results

* `reads_withSubtree`: how a glob is read with `/**` behind it.
* `includesDirectory_iff`: what a glob matches is matched with `/**` behind it too, exactly if the
  glob does not end in `/**` already or matches nothing.
-/

namespace PipelineExpansion.Glob

variable {parts ps init : List Part} {g cs : List Char}

/-! ### How the longer glob is read -/

/-- The parts of a glob with `/**` behind it. -/
def withSubtree : List Part → List Part
  | [] => [.subtree]
  | [.anyPath] => [.directories, .anyPath]
  | [.subtree] => [.char '/', .directories, .anyPath]
  | part :: parts => part :: withSubtree parts

/-- A part that is not the last one stays. -/
theorem withSubtree_cons (part : Part) (h : parts ≠ []) :
    withSubtree (part :: parts) = part :: withSubtree parts := by
  cases parts with
  | nil => exact absurd rfl h
  | cons next rest => cases part <;> rfl

theorem Reads.ne_nil (h : Reads g ps) (hg : g ≠ []) : ps ≠ [] := by
  cases h with
  | nil => exact absurd rfl hg
  | _ => exact List.cons_ne_nil _ _

/-- What does not begin with a character does not with more behind it. -/
theorem append_ne_cons {c : Char} {behind : List Char} (h : ∀ tail, g ≠ c :: tail) (hg : g ≠ []) :
    ∀ tail, g ++ behind ≠ c :: tail := by
  rintro tail htail
  cases g with
  | nil => exact hg rfl
  | cons d rest => exact h rest (congrArg (· :: rest) (List.cons.inj htail).1)

/-- Two stars at the end take the slash along; other parts are read as before. -/
theorem reads_withSubtree (h : Reads g ps) : Reads (g ++ ['/', '*', '*']) (withSubtree ps) := by
  induction h with
  | nil => exact .subtree
  | directories _ ih => exact .directories ih
  | @anyPath rest ps hslash h ih =>
      by_cases hrest : rest = []
      · subst hrest
        cases h
        exact .directories (.anyPath nofun .nil)
      · rw [withSubtree_cons _ (h.ne_nil hrest)]
        exact .anyPath (append_ne_cons hslash hrest) ih
  | @anySegment rest ps hstar h ih =>
      refine .anySegment ?_ ih
      by_cases hrest : rest = []
      · subst hrest
        exact nofun
      · exact append_ne_cons hstar hrest
  | anyChar _ ih => exact .anyChar ih
  | oneOf hbody _ ih =>
      rw [List.cons_append, List.append_assoc]
      exact .oneOf hbody ih
  | subtree => exact .char (by decide) (by decide) (.directories (.anyPath nofun .nil))
  | @char c rest ps hc hend _ ih =>
      refine .char hc ?_ ih
      rintro ⟨-, hrest⟩
      have hlength := congrArg List.length hrest
      simp at hlength

/-! ### What it matches -/

theorem divides_append_iff :
    Divides (init ++ ps) cs ↔ ∃ a b, cs = a ++ b ∧ Divides init a ∧ Divides ps b := by
  induction init generalizing cs with
  | nil => simp [divides_nil_iff]
  | cons part init ih =>
      simp only [List.cons_append, divides_cons_iff, ih]
      constructor
      · rintro ⟨a, _, rfl, ha, b, c, rfl, hb, hc⟩
        exact ⟨a ++ b, c, (List.append_assoc a b c).symm, ⟨a, b, rfl, ha, hb⟩, hc⟩
      · rintro ⟨_, c, rfl, ⟨a, b, rfl, ha, hb⟩, hc⟩
        exact ⟨a, b ++ c, List.append_assoc a b c, ha, b, c, rfl, hb, hc⟩

theorem covers_directories_nil : Part.directories.Covers [] := Or.inl rfl

theorem covers_subtree_nil : Part.subtree.Covers [] := Or.inl rfl

/-- What parts match is matched with `/**` behind them, unless it is there already. -/
theorem Divides.withSubtree (h : Divides ps cs) (hlast : .subtree ∉ ps) :
    Divides (withSubtree ps) cs := by
  induction h with
  | nil => exact .cons covers_subtree_nil .nil
  | @cons part parts a b ha hb ih =>
      rw [List.mem_cons, not_or] at hlast
      by_cases hparts : parts = []
      · subst hparts
        cases part with
        | subtree => exact absurd rfl hlast.1
        | anyPath => exact divides_cons_iff.mpr ⟨[], a ++ b, rfl, covers_directories_nil, .cons ha hb⟩
        | _ => exact .cons ha (ih hlast.2)
      · rw [withSubtree_cons part hparts]
        exact .cons ha (ih hlast.2)

/-- Where `/**` is there already, its slash has to be matched now. -/
theorem divides_slash_iff :
    Divides (init ++ [.char '/', .directories, .anyPath]) cs ↔
      ∃ a b, cs = a ++ '/' :: b ∧ Divides init a ∧ '\n' ∉ b := by
  rw [divides_append_iff]
  constructor
  · rintro ⟨a, _, rfl, ha, hslash⟩
    obtain ⟨_, _, rfl, rfl, hbelow⟩ := divides_cons_iff.mp hslash
    obtain ⟨ds, _, rfl, hds, hpath⟩ := divides_cons_iff.mp hbelow
    obtain ⟨es, _, rfl, hes, hnil⟩ := divides_cons_iff.mp hpath
    obtain rfl := divides_nil_iff.mp hnil
    have hes : '\n' ∉ es := hes
    refine ⟨a, ds ++ (es ++ []), rfl, ha, ?_⟩
    rcases hds with rfl | ⟨fs, rfl, hfs⟩
    · simpa using hes
    · simpa using ⟨hfs, hes⟩
  · rintro ⟨a, b, rfl, ha, hb⟩
    have hslash : (Part.char '/').Covers ['/'] := rfl
    have hpath : Divides [.anyPath] b := divides_cons_iff.mpr ⟨b, [], by simp, hb, .nil⟩
    exact ⟨a, '/' :: b, rfl, ha, .cons hslash (.cons covers_directories_nil hpath)⟩

/-- If each text that parts match has one of them in front of a slash in it, they match none: there
is no shortest one. -/
theorem not_divides_of_forall
    (h : ∀ cs, Divides (init ++ [.subtree]) cs →
      Divides (init ++ [.char '/', .directories, .anyPath]) cs) (cs : List Char) :
    ¬ Divides init cs := by
  induction hlength : cs.length using Nat.strongRecOn generalizing cs with
  | ind n ih =>
      intro hcs
      have hself : Divides (init ++ [.subtree]) cs :=
        divides_append_iff.mpr ⟨cs, [], by simp, hcs, .cons covers_subtree_nil .nil⟩
      obtain ⟨a, b, rfl, ha, -⟩ := divides_slash_iff.mp (h cs hself)
      rw [List.length_append, List.length_cons] at hlength
      exact ih a.length (by omega) a rfl ha

/-! ### Which globs include the directory -/

/-- Only at its end can a glob have a `/**`. -/
theorem Reads.exists_of_subtree_mem (h : Reads g ps) (hmem : .subtree ∈ ps) :
    ∃ init, ps = init ++ [.subtree] := by
  induction h with
  | nil => cases hmem
  | subtree => exact ⟨[], rfl⟩
  | directories _ ih | anyPath _ _ ih | anySegment _ _ ih | anyChar _ ih | oneOf _ _ ih
  | char _ _ _ ih =>
      obtain ⟨init, rfl⟩ := ih (by simpa using hmem)
      exact ⟨_ :: init, rfl⟩

theorem withSubtree_append_subtree (init : List Part) :
    withSubtree (init ++ [.subtree]) = init ++ [.char '/', .directories, .anyPath] := by
  induction init with
  | nil => rfl
  | cons part init ih =>
      rw [List.cons_append, withSubtree_cons part (by simp), ih, List.cons_append]

/-- **`/**` includes the directory itself**, whatever the glob in front of it ends in, except for a
`/**`: behind that, it leaves out some path that the glob alone matches, if it matches any. -/
theorem includesDirectory_iff {glob : String} {p q : Pattern} (hp : Pattern.compile glob = .ok p)
    (hq : Pattern.compile (glob ++ "/**") = .ok q) :
    (∀ path, p.isMatch path = true → q.isMatch path = true) ↔
      (.subtree ∈ p.parts → ∀ path, p.isMatch path = false) := by
  obtain ⟨-, hreads, -⟩ := compile_eq_ok_iff.mp hp
  obtain ⟨-, hlonger, -⟩ := compile_eq_ok_iff.mp hq
  have hparts : q.parts = withSubtree p.parts := by
    rw [String.toList_append] at hlonger
    exact hlonger.unique (reads_withSubtree hreads)
  simp only [Pattern.isMatch, matchParts_iff, hparts]
  constructor
  · intro hall hmem path
    obtain ⟨init, hinit⟩ := hreads.exists_of_subtree_mem hmem
    rw [hinit, withSubtree_append_subtree] at hall
    rw [Bool.eq_false_iff, Ne, matchParts_iff, hinit, divides_append_iff]
    rintro ⟨a, b, -, ha, -⟩
    refine not_divides_of_forall (fun cs hcs => ?_) a ha
    simpa using hall (String.ofList cs) (by simpa using hcs)
  · intro hnone path hpath
    by_cases hmem : .subtree ∈ p.parts
    · rw [← matchParts_iff, hnone hmem path] at hpath
      cases hpath
    · exact hpath.withSubtree hmem

/-- Two stars that end a glob take the slash along, and the directory is included all the same. -/
theorem includesDirectory_twoStars :
    ∃ p q, Pattern.compile "lib**" = .ok p ∧ Pattern.compile ("lib**" ++ "/**") = .ok q ∧
      (.subtree ∈ p.parts → ∀ path, p.isMatch path = false) ∧
        p.isMatch "lib" = true ∧ q.isMatch "lib" = true := by
  have hp : Pattern.compile "lib**" =
      .ok ⟨"lib**", [.char 'l', .char 'i', .char 'b', .anyPath]⟩ := rfl
  obtain ⟨q, hq⟩ : ∃ q, Pattern.compile ("lib**" ++ "/**") = .ok q := ⟨_, rfl⟩
  refine ⟨_, q, hp, hq, by simp, by decide, ?_⟩
  exact (includesDirectory_iff hp hq).mpr (by simp) "lib" (by decide)

/-- Behind a `/**`, another one leaves out the directory that the first one includes. -/
theorem includesDirectory_notTwice :
    ∃ p q, Pattern.compile "releases/**" = .ok p ∧
      Pattern.compile ("releases/**" ++ "/**") = .ok q ∧
        p.isMatch "releases" = true ∧ q.isMatch "releases" = false :=
  ⟨_, _, rfl, rfl, by decide, by decide⟩

end PipelineExpansion.Glob
