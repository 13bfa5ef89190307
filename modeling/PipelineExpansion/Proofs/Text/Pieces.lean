import Mathlib.Data.List.TakeWhile
import PipelineExpansion.Text.Blank
import PipelineExpansion.Text.Pieces

/-!
# What cutting finds

Cutting at a separator succeeds exactly when the separator occurs (`cut?_isSome`), and it is looked for
behind what it does not begin in (`cut?_append`). What is left of a text when blanks or a prefix are taken
off is a stretch of that text. The pieces between separators are those texts without a separator that make
up the text (`split_eq_iff`).
-/

namespace PipelineExpansion.Text

/-- What follows a prefix is what completes it. -/
theorem after?_eq_some {start cs rest : List Char} :
    after? start cs = some rest ↔ cs = start ++ rest := by
  induction start generalizing cs with
  | nil => simp [after?, eq_comm]
  | cons p ps ih =>
      cases cs with
      | nil => simp [after?]
      | cons c cs =>
          rw [after?]
          split
          · next h => simp [ih, h]
          · next h => simp [Ne.symm h]

/-- Cutting succeeds exactly when the separator occurs. -/
theorem cut?_isSome {separator cs : List Char} :
    (cut? separator cs).isSome ↔ separator <:+: cs := by
  induction cs with
  | nil => cases separator <;> simp [cut?]
  | cons c cs ih =>
      rw [cut?, List.infix_cons_iff, ← ih]
      cases h : after? separator (c :: cs) with
      | some rest =>
          rw [after?_eq_some] at h
          simp [h]
      | none =>
          have hsep : ¬ separator <+: c :: cs := by
            rintro ⟨rest, hrest⟩
            rw [after?_eq_some.mpr hrest.symm] at h
            cases h
          simp [hsep]

/-- A separator that begins nowhere in what stands in front is looked for behind it. -/
theorem cut?_append {separator front rest : List Char}
    (h : ∀ back, back ≠ [] → back <:+ front → ¬ separator <+: back ++ rest) :
    cut? separator (front ++ rest) = (cut? separator rest).map (Prod.map (front ++ ·) id) := by
  induction front with
  | nil =>
      rw [List.nil_append]
      cases cut? separator rest <;> rfl
  | cons c cs ih =>
      have hnone : after? separator (c :: (cs ++ rest)) = none := by
        rw [Option.eq_none_iff_forall_ne_some]
        intro behind hbehind
        exact h (c :: cs) (List.cons_ne_nil c cs) (List.suffix_refl _)
          ⟨behind, (after?_eq_some.mp hbehind).symm⟩
      rw [List.cons_append, cut?, hnone]
      dsimp only
      rw [ih fun back hne hback => h back hne (hback.trans (List.suffix_cons c cs)), Option.map_map]
      rfl

/-- A separator is cut at where it stands in front. -/
theorem cut?_cons_append (c : Char) (cs rest : List Char) :
    cut? (c :: cs) (c :: cs ++ rest) = some ([], rest) := by
  have hafter : after? (c :: cs) (c :: cs ++ rest) = some rest := after?_eq_some.mpr rfl
  rw [List.cons_append] at hafter ⊢
  rw [cut?, hafter]

/-- A text without the blanks around it is a stretch of that text. -/
theorem toList_trim_infix (s : String) : (trim s).toList <:+: s.toList := by
  rw [trim, String.toList_ofList]
  have htrailing : dropTrailingBlanks (dropBlanks s.toList) <+: dropBlanks s.toList := by
    rw [dropTrailingBlanks, ← List.reverse_suffix, List.reverse_reverse]
    exact List.dropWhile_suffix _
  exact htrailing.isInfix.trans (List.dropWhile_suffix _).isInfix

/-- No blank is left at the end of a text without the blanks around it. -/
theorem isBlank_last_of_trim {s : String} (h : trim s = s) :
    ∀ c ∈ s.toList.getLast?, isBlank c = false := by
  intro c hc
  rw [← h, trim, String.toList_ofList, dropTrailingBlanks, List.getLast?_reverse] at hc
  have hhead := List.head?_dropWhile_not isBlank (dropBlanks s.toList).reverse
  rw [Option.mem_def.mp hc] at hhead
  exact hhead

/-- Where no blank is at the end, only those in front are taken off. -/
theorem toList_trim_of_last {s : String} (h : ∀ c ∈ s.toList.getLast?, isBlank c = false) :
    (trim s).toList = dropBlanks s.toList := by
  rw [trim, String.toList_ofList, dropTrailingBlanks, List.reverse_eq_iff]
  cases hlast : (dropBlanks s.toList).reverse with
  | nil => rfl
  | cons c rest =>
      have hc : c ∈ s.toList.getLast? := by
        obtain ⟨blanks, hblanks⟩ := List.dropWhile_suffix isBlank (l := s.toList)
        rw [← hblanks, ← dropBlanks, List.reverse_eq_iff.mp hlast]
        simp
      rw [List.dropWhile_cons_of_neg (by simp [h c hc])]

/-- Where no blank stands at either end there is nothing to take away. -/
theorem trim_eq_self_of_ends {s : String} (hfirst : ∀ c ∈ s.toList.head?, isBlank c = false)
    (hlast : ∀ c ∈ s.toList.getLast?, isBlank c = false) : trim s = s := by
  rw [← String.toList_inj, toList_trim_of_last hlast, dropBlanks]
  cases hs : s.toList with
  | nil => rfl
  | cons c cs =>
      rw [hs] at hfirst
      exact List.dropWhile_cons_of_neg (by simp [hfirst c rfl])

/-- A text whose first and last characters are no blanks is left as it is. -/
theorem trim_eq_self {s : String} {first last : Char} {cs ds : List Char}
    (hfirst : s.toList = first :: cs) (hlast : s.toList = ds ++ [last])
    (hf : isBlank first = false) (hl : isBlank last = false) : trim s = s :=
  trim_eq_self_of_ends (by simpa [hfirst] using hf) (by simpa [hlast] using hl)

/-- A word in front of a text keeps the blanks that the text begins with. -/
theorem trim_append {front s : String} (hne : front ≠ "")
    (hfirst : front.toList.head?.any isBlank = false)
    (hlast : front.toList.getLast?.any isBlank = false)
    (hs : ∀ c ∈ s.toList.getLast?, isBlank c = false) : trim (front ++ s) = front ++ s := by
  rw [Option.any_eq_false] at hfirst hlast
  refine trim_eq_self_of_ends (fun c hc => hfirst c ?_) fun c hc => ?_
  · cases hfront : front.toList with
    | nil => exact absurd (String.toList_eq_nil_iff.mp hfront) hne
    | cons d rest => rwa [String.toList_append, hfront] at hc
  · rw [String.toList_append, List.getLast?_append, Option.mem_def, Option.or_eq_some_iff] at hc
    rcases hc with hc | ⟨-, hc⟩
    · exact hs c hc
    · exact hlast c hc

/-- Blanks around a text make no difference. -/
theorem trim_append_blanks {front behind : String} (hfront : ∀ c ∈ front.toList, isBlank c = true)
    (hbehind : ∀ c ∈ behind.toList, isBlank c = true) (s : String) :
    trim (front ++ s ++ behind) = trim s := by
  simp only [trim, dropBlanks, dropTrailingBlanks, String.toList_append, List.append_assoc,
    List.dropWhile_append_of_pos hfront]
  rw [List.dropWhile_append]
  split
  · next hempty =>
    rw [List.isEmpty_iff.mp hempty, List.dropWhile_eq_nil_iff.mpr hbehind]
  · rw [List.reverse_append, List.dropWhile_append_of_pos]
    simpa using hbehind

/-- A first character that is no blank stays. -/
theorem head?_trim {s : String} {c : Char} (hs : s.toList.head? = some c) (hc : isBlank c = false) :
    (trim s).toList.head? = some c := by
  obtain ⟨cs, hcs⟩ := List.head?_eq_some_iff.mp hs
  rw [trim, String.toList_ofList, hcs, dropBlanks, List.dropWhile_cons_of_neg (by simp [hc]),
    dropTrailingBlanks, List.reverse_cons, List.dropWhile_append]
  split
  · simp [List.dropWhile, hc]
  · simp

/-- A prefix can be taken off exactly when the text is the prefix with what is left behind it. -/
theorem stripPrefix?_eq_some_iff {start s rest : String} :
    stripPrefix? start s = some rest ↔ s = start ++ rest := by
  rw [stripPrefix?, Option.map_eq_some_iff]
  constructor
  · rintro ⟨cs, hcs, rfl⟩
    rw [← String.toList_inj, String.toList_append, String.toList_ofList]
    exact after?_eq_some.mp hcs
  · rintro rfl
    exact ⟨rest.toList, after?_eq_some.mpr String.toList_append, String.ofList_toList⟩

/-- A prefix that is taken off was there. -/
theorem prefix_of_stripPrefix?_isSome {start s : String} (h : (stripPrefix? start s).isSome) :
    start.toList <+: s.toList := by
  rw [stripPrefix?, Option.isSome_map] at h
  obtain ⟨rest, hrest⟩ := Option.isSome_iff_exists.mp h
  exact ⟨rest, (after?_eq_some.mp hrest).symm⟩

/-! ### Pieces between separators -/

/-- The pieces of a text are those of the library. -/
theorem pieces_eq_splitOn (separator : Char) (cs : List Char) :
    pieces separator cs = cs.splitOn separator := by
  induction cs with
  | nil => rfl
  | cons c cs ih =>
      rw [pieces, List.splitOn_cons_eq_if_modifyHead, ← ih]
      by_cases h : c = separator
      · simp [h]
      · rw [if_neg h, if_neg (by simpa using h)]
        cases hpieces : pieces separator cs with
        | nil => exact absurd (ih ▸ hpieces) (List.splitOn_ne_nil separator cs)
        | cons piece rest => rfl

/-- The pieces between separators make up the text again. -/
theorem intercalate_pieces (separator : Char) (cs : List Char) :
    [separator].intercalate (pieces separator cs) = cs := by
  rw [pieces_eq_splitOn, List.intercalate_splitOn]

theorem pieces_ne_nil (separator : Char) (cs : List Char) : pieces separator cs ≠ [] := by
  rw [pieces_eq_splitOn]
  exact List.splitOn_ne_nil separator cs

/-- No separator is left in a piece. -/
theorem not_mem_of_mem_pieces {separator : Char} {cs piece : List Char}
    (h : piece ∈ pieces separator cs) : separator ∉ piece := by
  induction cs generalizing piece with
  | nil => simp_all [pieces]
  | cons c cs ih =>
      rw [pieces] at h
      split at h
      · rcases List.mem_cons.mp h with rfl | h
        · exact List.not_mem_nil
        · exact ih h
      · next hc =>
        split at h
        · cases List.mem_singleton.mp h
          simpa using Ne.symm hc
        · next first rest hpieces =>
          rw [hpieces] at ih
          rcases List.mem_cons.mp h with rfl | h
          · exact List.not_mem_cons_of_ne_of_not_mem (Ne.symm hc) (ih List.mem_cons_self)
          · exact ih (List.mem_cons_of_mem _ h)

/-- Names are the pieces of a text exactly if no separator is in them and the text is made of them. -/
theorem split_eq_iff {separator : Char} {s : String} {names : List String} :
    split separator s = names ↔ names ≠ [] ∧ (∀ name ∈ names, separator ∉ name.toList) ∧
      s = join (String.singleton separator) names := by
  have hjoin : ∀ names : List String, (join (String.singleton separator) names).toList =
      [separator].intercalate (names.map String.toList) := fun names => by
    rw [join, String.toList_intercalate, String.toList_singleton]
  constructor
  · rintro rfl
    refine ⟨fun h => pieces_ne_nil separator s.toList (List.map_eq_nil_iff.mp h), ?_, ?_⟩
    · intro name hname
      obtain ⟨piece, hpiece, rfl⟩ := List.mem_map.mp hname
      rw [String.toList_ofList]
      exact not_mem_of_mem_pieces hpiece
    · rw [← String.toList_inj, hjoin, split, List.map_map]
      simp [Function.comp_def, intercalate_pieces]
  · rintro ⟨hne, hnames, rfl⟩
    rw [split, hjoin, pieces_eq_splitOn, List.splitOn_intercalate]
    · simp [Function.comp_def]
    · simpa using hnames
    · simpa using hne

/-- The pieces of two texts with a separator between them are those of both. -/
theorem split_append (separator : Char) (s t : String) :
    split separator (s ++ String.singleton separator ++ t) =
      split separator s ++ split separator t := by
  simp only [split, pieces_eq_splitOn, String.toList_append, String.toList_singleton]
  rw [List.append_assoc, List.singleton_append, List.splitOn_append_cons_self, List.map_append]

/-- Two texts at the end may be joined before all are. -/
theorem join_append_pair (separator : String) (texts : List String) (a b : String) :
    join separator (texts ++ [a] ++ [b]) = join separator (texts ++ [a ++ separator ++ b]) := by
  simp only [join, List.append_assoc, List.singleton_append]
  cases texts with
  | nil => rfl
  | cons first rest =>
      rw [String.intercalate_append_of_ne_nil (List.cons_ne_nil first rest) (List.cons_ne_nil a [b]),
        String.intercalate_append_of_ne_nil (List.cons_ne_nil first rest) (List.cons_ne_nil _ [])]
      rfl

/-- A text is cut at the last separator. -/
theorem splitLast?_append {separator : Char} (s : String) {t : String} (h : separator ∉ t.toList) :
    splitLast? separator (s ++ String.singleton separator ++ t) = some (s, t) := by
  have hcut : cut? [separator] (t.toList.reverse ++ ([separator] ++ s.toList.reverse)) =
      some (t.toList.reverse, s.toList.reverse) := by
    rw [cut?_append, cut?_cons_append]
    · simp
    · intro back hne hback hstart
      obtain ⟨c, cs, rfl⟩ := List.exists_cons_of_ne_nil hne
      obtain ⟨rfl, -⟩ := List.cons_prefix_cons.mp hstart
      exact h (List.mem_reverse.mp (hback.subset List.mem_cons_self))
  rw [splitLast?, String.toList_append, String.toList_append, String.toList_singleton,
    List.reverse_append, List.reverse_append, List.reverse_singleton, hcut]
  simp

theorem splitLast?_eq_none {separator : Char} {s : String} (h : separator ∉ s.toList) :
    splitLast? separator s = none := by
  have hcut : ¬ (cut? [separator] s.toList.reverse).isSome := fun hsome =>
    h (List.mem_reverse.mp ((cut?_isSome.mp hsome).subset List.mem_cons_self))
  rw [splitLast?, Option.not_isSome_iff_eq_none.mp hcut]
  rfl

/-- A text that is cut in two is the two with the separator between them. -/
theorem eq_of_split_eq_pair {separator : Char} {s a b : String} (h : split separator s = [a, b]) :
    s = a ++ String.singleton separator ++ b := by
  rw [(split_eq_iff.mp h).2.2, join]
  rfl

end PipelineExpansion.Text
