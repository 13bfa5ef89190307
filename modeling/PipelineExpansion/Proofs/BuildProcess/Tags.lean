import Mathlib.Data.List.Forall2
import PipelineExpansion.BuildProcess.Mustache
import PipelineExpansion.Proofs.Text.Pieces

/-!
# What tags are replaced by

A document is written as a list of segments: literal texts, tags and comments. The tags are replaced
from left to right, each of them once, and the rest of the document is not touched. The argument is an
induction over the segments with the result so far in front of it. A literal moves into the result as it
is, since no tag begins in it or across its end (`renderFrom_literal`); a tag and a comment end at the
braces that are written for them, whatever follows (`cut?_doubled`).

The length of the result is looked at behind every tag. As the result only grows, these looks come to one
look at the whole text (`checkLength_bind_append`).

## Main results

* `valueAt?_eq_some_iff`: the value for a path is where the names between its dots lead to.
* `render_source`: what a document with tags is made into, with and without a limit.
-/

namespace PipelineExpansion.Yaml

/-- The names lead from a value to another one through nested mappings. -/
inductive Graph.Leads : Graph → List String → Graph → Prop where
  | here {g : Graph} : Graph.Leads g [] g
  | inside {entries : List (String × Graph)} {name : String} {g target : Graph} {rest : List String}
      (hname : List.lookup name entries = some g) (hrest : Graph.Leads g rest target) :
      Graph.Leads (.mapping entries) (name :: rest) target

theorem Graph.follow?_eq_some_iff {g target : Graph} {names : List String} :
    g.follow? names = some target ↔ g.Leads names target := by
  constructor
  · intro h
    induction names generalizing g with
    | nil =>
        rw [follow?] at h
        cases h
        exact .here
    | cons name rest ih =>
        cases g with
        | text s => simp [follow?] at h
        | list items => simp [follow?] at h
        | mapping entries =>
            obtain ⟨inner, hname, hrest⟩ := Option.bind_eq_some_iff.mp h
            exact .inside hname (ih hrest)
  · intro h
    induction h with
    | @here g => cases g <;> rfl
    | inside hname _ ih => exact Option.bind_eq_some_iff.mpr ⟨_, hname, ih⟩

end PipelineExpansion.Yaml

namespace PipelineExpansion.BuildProcess

open Yaml (Graph)

variable {values : Parameters} {maximum n : Nat} {result path text : String} {rest : List Char}

/-! ### Values and paths -/

/-- A path leads to a value: the names between its dots do, from all values on. -/
def LeadsTo (values : Parameters) (path : String) (target : Graph) : Prop :=
  ∃ names, names ≠ [] ∧ (∀ name ∈ names, '.' ∉ name.toList) ∧ path = Text.join "." names ∧
    (Graph.mapping values).Leads names target

/-- **The value for a path** is the one that the names between its dots lead to. -/
theorem valueAt?_eq_some_iff {target : Graph} :
    valueAt? values path = some target ↔ LeadsTo values path target := by
  have hsplit : valueAt? values path = (Graph.mapping values).follow? (Text.split '.' path) := by
    rw [valueAt?]
    cases hnames : Text.split '.' path with
    | nil => exact absurd rfl (Text.split_eq_iff.mp hnames).1
    | cons head rest => rfl
  rw [hsplit, Graph.follow?_eq_some_iff]
  constructor
  · intro h
    obtain ⟨hne, hdots, hpath⟩ := Text.split_eq_iff.mp (Eq.refl (Text.split '.' path))
    exact ⟨_, hne, hdots, hpath, h⟩
  · rintro ⟨names, hne, hdots, hpath, h⟩
    rwa [Text.split_eq_iff.mpr ⟨hne, hdots, hpath⟩]

/-! ### Segments -/

/-- A part of a document with tags. -/
inductive Segment where
  | literal (text : String)
  | tag (path : String)
  | comment (text : String)

namespace Segment

/-- A segment as it is written. -/
def source : Segment → String
  | literal text => text
  | tag path => "\x7b\x7b " ++ path ++ " \x7d\x7d"
  | comment text => "\x7b\x7b! " ++ text ++ " \x7d\x7d"

/-- No tag begins in a literal, nor with its last character. A path has no blanks around it and no braces,
and no sign in front. A comment ends where it is closed. -/
def WellFormed : Segment → Prop
  | literal text => ¬ ['\x7b', '\x7b'] <:+: text.toList ∧ text.toList.getLast? ≠ some '\x7b'
  | tag path => path ≠ "" ∧ Text.trim path = path ∧
      '\x7b' ∉ path.toList ∧ '\x7d' ∉ path.toList ∧
      path.toList.head?.all fun c => c ∉ ['!', '#', '/', '^', '>', '&']
  | comment text => ¬ ['\x7d', '\x7d'] <:+: text.toList

instance (s : Segment) : Decidable s.WellFormed :=
  match s with
  | literal text => inferInstanceAs
      (Decidable (¬ ['\x7b', '\x7b'] <:+: text.toList ∧ text.toList.getLast? ≠ some '\x7b'))
  | tag path => inferInstanceAs (Decidable (path ≠ "" ∧ Text.trim path = path ∧
      '\x7b' ∉ path.toList ∧ '\x7d' ∉ path.toList ∧
      path.toList.head?.all fun c => c ∉ ['!', '#', '/', '^', '>', '&']))
  | comment text => inferInstanceAs (Decidable (¬ ['\x7d', '\x7d'] <:+: text.toList))

/-- What a segment is to be replaced by: a literal by itself, a comment by nothing, and a tag by the text
that its path leads to, by the JSON of a list or of a mapping, or by nothing if it leads nowhere. -/
inductive Shows (values : Parameters) : Segment → String → Prop where
  | literal (text : String) : Shows values (.literal text) text
  | comment (text : String) : Shows values (.comment text) ""
  | missing {path : String} (h : ∀ g, ¬ LeadsTo values path g) : Shows values (.tag path) ""
  | text {path s : String} (h : LeadsTo values path (.text s)) : Shows values (.tag path) s
  | list {path : String} {items : List Graph} (h : LeadsTo values path (.list items)) :
      Shows values (.tag path) (Graph.list items).toJson.compact
  | mapping {path : String} {entries : List (String × Graph)}
      (h : LeadsTo values path (.mapping entries)) :
      Shows values (.tag path) (Graph.mapping entries).toJson.compact

/-- What a tag shows is the text of the value at its path. -/
theorem shows_tag_iff {values : Parameters} {path text : String} :
    Shows values (.tag path) text ↔ ((valueAt? values path).map valueText).getD "" = text := by
  constructor
  · intro h
    cases h with
    | missing h =>
        have hnone : valueAt? values path = none :=
          Option.eq_none_iff_forall_ne_some.mpr fun g hg => h g (valueAt?_eq_some_iff.mp hg)
        rw [hnone]
        rfl
    | text h | list h | mapping h =>
        rw [valueAt?_eq_some_iff.mpr h]
        rfl
  · rintro rfl
    cases hvalue : valueAt? values path with
    | none =>
        refine .missing fun g hg => ?_
        rw [valueAt?_eq_some_iff.mpr hg] at hvalue
        cases hvalue
    | some g =>
        rw [valueAt?_eq_some_iff] at hvalue
        cases g with
        | text s => exact .text hvalue
        | list items => exact .list hvalue
        | mapping entries => exact .mapping hvalue

/-- Every segment shows some text. -/
theorem exists_shows (values : Parameters) (s : Segment) : ∃ text, Shows values s text := by
  cases s with
  | literal text => exact ⟨text, .literal text⟩
  | comment text => exact ⟨"", .comment text⟩
  | tag path => exact ⟨_, shows_tag_iff.mpr rfl⟩

end Segment

/-- A document in segments. -/
def source (segments : List Segment) : String := String.join (segments.map Segment.source)

/-! ### Braces -/

/-- What no doubled character begins in is in front of the first one. -/
theorem cut?_doubled {c : Char} {front : List Char} (hfront : ¬ [c, c] <:+: front)
    (hlast : front.getLast? ≠ some c) (rest : List Char) :
    Text.cut? [c, c] (front ++ rest) =
      (Text.cut? [c, c] rest).map (Prod.map (front ++ ·) id) := by
  refine Text.cut?_append fun back hne hback hstart => ?_
  rcases back with _ | ⟨d, _ | ⟨e, ds⟩⟩
  · exact hne rfl
  · obtain ⟨rfl, -⟩ := List.cons_prefix_cons.mp hstart
    obtain ⟨before, rfl⟩ := hback
    exact hlast List.getLast?_concat
  · obtain ⟨rfl, hsecond⟩ := List.cons_prefix_cons.mp hstart
    obtain ⟨rfl, -⟩ := List.cons_prefix_cons.mp hsecond
    exact hfront ((List.IsPrefix.isInfix ⟨ds, rfl⟩).trans hback.isInfix)

theorem not_doubled_cons {c d : Char} {cs : List Char} (hd : d ≠ c) (h : ¬ [c, c] <:+: cs) :
    ¬ [c, c] <:+: d :: cs := by
  rw [List.infix_cons_iff]
  rintro (hstart | hoccurs)
  · exact hd (List.cons_prefix_cons.mp hstart).1.symm
  · exact h hoccurs

theorem not_doubled_concat {c d : Char} {cs : List Char} (hd : d ≠ c) (h : ¬ [c, c] <:+: cs) :
    ¬ [c, c] <:+: cs ++ [d] := by
  rw [List.infix_concat_iff]
  rintro (hsuffix | hoccurs)
  · obtain ⟨before, hbefore⟩ := hsuffix
    have hlast := congrArg List.getLast? hbefore
    rw [List.getLast?_append, List.getLast?_concat] at hlast
    exact hd (Option.some.inj hlast).symm
  · exact h hoccurs

/-- A tag ends at the first two braces if only one opens it. -/
theorem tag?_append {c : Char} {cs : List Char} (hc : c ≠ '\x7b')
    (hclosing : ¬ ['\x7d', '\x7d'] <:+: c :: cs) (rest : List Char) :
    tag? (c :: cs ++ " \x7d\x7d".toList ++ rest) =
      some (Text.trim (String.ofList (c :: cs ++ [' '])), rest) := by
  have hcut : Text.cut? ['\x7d', '\x7d'] (c :: cs ++ " \x7d\x7d".toList ++ rest) =
      some (c :: cs ++ [' '], rest) := by
    have hbody := not_doubled_concat (show ' ' ≠ '\x7d' by decide) hclosing
    have h := cut?_doubled hbody (by rw [List.getLast?_concat]; decide) (['\x7d', '\x7d'] ++ rest)
    rw [Text.cut?_cons_append] at h
    simpa using h
  rw [List.cons_append, List.cons_append, tag?, ← List.cons_append, ← List.cons_append, hcut]
  · rfl
  · rintro inner h
    exact hc (List.cons.inj h).1

theorem tag?_path (h : (Segment.tag path).WellFormed) (rest : List Char) :
    tag? ((' ' :: path.toList) ++ " \x7d\x7d".toList ++ rest) = some (path, rest) := by
  obtain ⟨-, htrim, -, hclosing, -⟩ := h
  have hpath : ¬ ['\x7d', '\x7d'] <:+: path.toList := fun hoccurs =>
    hclosing (hoccurs.subset List.mem_cons_self)
  have htext : String.ofList ((' ' :: path.toList) ++ [' ']) = " " ++ path ++ " " := by
    simp [← String.toList_inj]
  have hblank : ∀ c ∈ " ".toList, Text.isBlank c = true := List.all_eq_true.mp (by decide)
  rw [tag?_append (by decide) (not_doubled_cons (by decide) hpath), htext,
    Text.trim_append_blanks hblank hblank, htrim]

theorem tag?_comment (h : (Segment.comment text).WellFormed) (rest : List Char) :
    ∃ expression : String, expression.toList.head? = some '!' ∧
      tag? (('!' :: ' ' :: text.toList) ++ " \x7d\x7d".toList ++ rest) = some (expression, rest) := by
  have hclosing := not_doubled_cons (show '!' ≠ '\x7d' by decide)
    (not_doubled_cons (show ' ' ≠ '\x7d' by decide) h)
  refine ⟨_, Text.head?_trim ?_ (by decide), tag?_append (by decide) hclosing rest⟩
  rw [String.toList_ofList]
  rfl

/-! ### One segment -/

theorem renderFrom_literal (h : (Segment.literal text).WellFormed) (rest : List Char) :
    renderFrom values maximum n result (text.toList ++ rest) =
      renderFrom values maximum n (result ++ text) rest := by
  cases n with
  | zero => simp [renderFrom, String.ofList_append, String.append_assoc]
  | succ n =>
      rw [renderFrom, renderFrom, tagOpening, cut?_doubled h.1 h.2]
      cases Text.cut? ['\x7b', '\x7b'] rest with
      | none => simp [String.ofList_append, String.append_assoc]
      | some found => simp [String.ofList_append, String.append_assoc]

/-- Where a tag is a comment, what is behind it is looked at next. -/
theorem renderFrom_dropped {after : List Char} {expression : String}
    (htag : tag? after = some (expression, rest)) (h : replacement values expression = .ok none) :
    renderFrom values maximum (n + 1) result (tagOpening ++ after) =
      renderFrom values maximum n result rest := by
  rw [renderFrom, tagOpening, Text.cut?_cons_append]
  simp only [htag, h, String.ofList_nil, String.append_empty]
  rfl

/-- Where a tag is replaced, what is behind it is looked at next, unless the result is too long. -/
theorem renderFrom_replaced {after : List Char} {expression : String}
    (htag : tag? after = some (expression, rest))
    (h : replacement values expression = .ok (some text)) :
    renderFrom values maximum (n + 1) result (tagOpening ++ after) =
      checkLength maximum (result ++ text) >>= fun _ =>
        renderFrom values maximum n (result ++ text) rest := by
  rw [renderFrom, tagOpening, Text.cut?_cons_append]
  simp only [htag, h, String.ofList_nil, String.append_empty]
  rfl

theorem replacement_path (h : (Segment.tag path).WellFormed)
    (hshows : Segment.Shows values (.tag path) text) : replacement values path = .ok (some text) := by
  obtain ⟨-, -, -, -, hsign⟩ := h
  rw [Segment.shows_tag_iff] at hshows
  rw [replacement, hshows]
  split
  · next hhead => simp [hhead] at hsign
  · next c _ hhead =>
    rw [if_neg]
    intro hmem
    simp_all
  · rfl

theorem renderFrom_tag (h : (Segment.tag path).WellFormed) (hshows : Segment.Shows values (.tag path) text)
    (rest : List Char) :
    renderFrom values maximum (n + 1) result ((Segment.tag path).source.toList ++ rest) =
      checkLength maximum (result ++ text) >>= fun _ =>
        renderFrom values maximum n (result ++ text) rest := by
  have hsource : (Segment.tag path).source.toList ++ rest =
      tagOpening ++ ((' ' :: path.toList) ++ " \x7d\x7d".toList ++ rest) := by
    simp [Segment.source, tagOpening]
  rw [hsource, renderFrom_replaced (tag?_path h rest) (replacement_path h hshows)]

theorem renderFrom_comment (h : (Segment.comment text).WellFormed) (rest : List Char) :
    renderFrom values maximum (n + 1) result ((Segment.comment text).source.toList ++ rest) =
      renderFrom values maximum n result rest := by
  have hsource : (Segment.comment text).source.toList ++ rest =
      tagOpening ++ (('!' :: ' ' :: text.toList) ++ " \x7d\x7d".toList ++ rest) := by
    simp [Segment.source, tagOpening]
  obtain ⟨expression, hhead, htag⟩ := tag?_comment h rest
  have hreplacement : replacement values expression = .ok none := by
    simp only [replacement, hhead]
  rw [hsource, renderFrom_dropped htag hreplacement]

/-! ### The length of the result -/

theorem checkLength_eq_ok (h : maximum = 0 ∨ result.utf8ByteSize ≤ maximum) :
    checkLength maximum result = .ok () := by
  rw [checkLength, if_neg]
  simp only [Bool.and_eq_true, decide_eq_true_eq]
  omega

theorem checkLength_eq_error (hpositive : 0 < maximum) (h : maximum < result.utf8ByteSize) :
    checkLength maximum result =
      .error (.limit ("Maximum mustache result length of " ++ toString maximum ++ " exceeded.")) := by
  rw [checkLength, if_pos]
  simp only [Bool.and_eq_true, decide_eq_true_eq]
  exact ⟨hpositive, h⟩

/-- A longer result is refused in the words in which a part of it is refused. -/
theorem checkLength_bind_append (maximum : Nat) (result text : String) :
    (checkLength maximum result >>= fun _ => checkLength maximum (result ++ text)) =
      checkLength maximum (result ++ text) := by
  by_cases h : maximum = 0 ∨ result.utf8ByteSize ≤ maximum
  · rw [checkLength_eq_ok h]
    rfl
  · have hresult : maximum < result.utf8ByteSize := by omega
    have hlonger : maximum < (result ++ text).utf8ByteSize := by
      rw [String.utf8ByteSize_append]
      omega
    rw [checkLength_eq_error (by omega) hresult, checkLength_eq_error (by omega) hlonger]
    rfl

/-! ### All segments -/

theorem source_cons (s : Segment) (segments : List Segment) :
    source (s :: segments) = s.source ++ source segments := by
  rw [source, List.map_cons, String.join_cons, source]

/-- What is in braces is not empty. -/
theorem length_source_pos {s : Segment} (h : ∀ text, s ≠ .literal text) : 0 < s.source.length := by
  cases s with
  | literal text => exact absurd rfl (h text)
  | tag text | comment text =>
      rw [Segment.source, String.length_append, String.length_append]
      exact Nat.add_pos_right _ (by decide)

/-- Behind a result, segments are replaced by what they show, and the length is looked at as if that were
done at the end only. -/
theorem renderFrom_source {segments : List Segment} {texts : List String}
    (hshows : List.Forall₂ (Segment.Shows values) segments texts)
    (h : ∀ s ∈ segments, s.WellFormed) (hn : (source segments).length < n) :
    renderFrom values maximum n result (source segments).toList =
      checkLength maximum (result ++ String.join texts) >>= fun _ =>
        .ok (result ++ String.join texts) := by
  induction hshows generalizing n result with
  | nil =>
      obtain ⟨n, rfl⟩ := Nat.exists_eq_add_one_of_ne_zero (Nat.ne_of_gt hn)
      rfl
  | @cons segment text segments texts hshow _ ih =>
      obtain ⟨hsegment, hsegments⟩ := List.forall_mem_cons.mp h
      rw [source_cons, String.length_append] at hn
      rw [source_cons, String.toList_append, String.join_cons, ← String.append_assoc]
      cases segment with
      | literal literal =>
          cases hshow
          rw [Segment.source, renderFrom_literal hsegment]
          exact ih hsegments (by omega)
      | tag path =>
          obtain ⟨n, rfl⟩ := Nat.exists_eq_add_one_of_ne_zero (Nat.ne_zero_of_lt hn)
          have hlength := length_source_pos (s := .tag path) nofun
          rw [renderFrom_tag hsegment hshow, ih hsegments (by omega), ← bind_assoc,
            checkLength_bind_append]
      | comment comment =>
          obtain ⟨n, rfl⟩ := Nat.exists_eq_add_one_of_ne_zero (Nat.ne_zero_of_lt hn)
          have hlength := length_source_pos (s := .comment comment) nofun
          cases hshow
          rw [renderFrom_comment hsegment, ih hsegments (by omega), String.append_empty]

/-- **Tags are replaced, once, and nothing else is.** A document in segments becomes what its segments show,
one after the other. A limit on the length is passed exactly if that whole text is longer. -/
theorem render_source (values : Parameters) {segments : List Segment}
    (h : ∀ s ∈ segments, s.WellFormed) :
    ∃ texts, List.Forall₂ (Segment.Shows values) segments texts ∧ ∀ maximum,
      (maximum = 0 ∨ (String.join texts).utf8ByteSize ≤ maximum →
        render (source segments) values maximum = .ok (String.join texts)) ∧
      (0 < maximum → maximum < (String.join texts).utf8ByteSize →
        ∃ d, render (source segments) values maximum = .error d ∧ d.kind = .limit ∧
          d.message = "Maximum mustache result length of " ++ toString maximum ++ " exceeded.") := by
  choose shown hshown using Segment.exists_shows values
  have hshows : List.Forall₂ (Segment.Shows values) segments (segments.map shown) :=
    List.forall₂_map_right_iff.mpr (List.forall₂_same.mpr fun s _ => hshown s)
  refine ⟨segments.map shown, hshows, fun maximum => ?_⟩
  rw [render, renderFrom_source hshows h (Nat.lt_succ_self _), String.empty_append]
  constructor
  · intro hlength
    rw [checkLength_eq_ok hlength]
    rfl
  · intro hpositive hlength
    rw [checkLength_eq_error hpositive hlength]
    exact ⟨_, rfl, rfl, rfl⟩

/-- The values of a greeting. -/
def greetingValues : Parameters :=
  [("name", .text "\x7b\x7b x \x7d\x7d"), ("pool", .mapping [("images", .list [.text "a", .text "b"])])]

/-- A greeting with tags of each kind. -/
def greeting : List Segment :=
  [.literal "hi ", .tag "name", .comment " note", .literal ": ", .tag "pool.images", .tag "pool.x"]

theorem render_greeting : (∀ s ∈ greeting, s.WellFormed) ∧
    ∃ texts, List.Forall₂ (Segment.Shows greetingValues) greeting texts ∧
      String.join texts = "hi \x7b\x7b x \x7d\x7d: [\"a\",\"b\"]" ∧
      render (source greeting) greetingValues 0 = .ok (String.join texts) ∧
      render (source greeting) greetingValues 21 = .ok (String.join texts) ∧
      ∃ d, render (source greeting) greetingValues 20 = .error d ∧ d.kind = .limit := by
  have hwell : ∀ s ∈ greeting, s.WellFormed := by decide +kernel
  obtain ⟨texts, hshows, hrender⟩ := render_source greetingValues hwell
  have hunlimited := (hrender 0).1 (.inl rfl)
  have hjoin : String.join texts = "hi \x7b\x7b x \x7d\x7d: [\"a\",\"b\"]" := by
    have hrun : render (source greeting) greetingValues 0 =
        .ok "hi \x7b\x7b x \x7d\x7d: [\"a\",\"b\"]" := by decide +kernel
    exact Except.ok.inj (hunlimited.symm.trans hrun)
  have hsize : (String.join texts).utf8ByteSize = 21 := by rw [hjoin]; decide
  obtain ⟨d, hfails, hkind, -⟩ := (hrender 20).2 (by decide) (by omega)
  exact ⟨hwell, texts, hshows, hjoin, hunlimited, (hrender 21).1 (.inr (by omega)), d, hfails, hkind⟩

end PipelineExpansion.BuildProcess
