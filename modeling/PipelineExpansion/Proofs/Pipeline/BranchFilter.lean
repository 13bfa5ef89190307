import PipelineExpansion.Pipeline.Trigger
import PipelineExpansion.Proofs.Glob.PatternSet
import PipelineExpansion.Proofs.Text.Pieces

/-!
# Spellings of branch filters

A trigger section may list its branch filters, with `!` in front of the globs that exclude, may have
such a list under `branches`, or may have two lists there, of what is included and what is excluded.
A branch and the glob of a filter may be written with the path that branches are kept under or
without it. Reading a section takes all of this off, down to one entry for each filter
(`BranchFilter.bare`), so that no way of writing makes a difference, with one exception: the path is
not seen behind a `!`.

## Main results

* `exists_entries_of_spells`: each spelling comes down to the bare entries of its filters.
* `fires_of_respells`: however filters and branch are written, the answers are the same, unless a `!`
  stands in front of the path.
-/

namespace PipelineExpansion.Pipeline

open Glob (IsOrdinary Pattern PatternSet)
open Template (Entry Key Origin Token)
open Trigger (branchName filterEntries patternEntry)

/-! ### Names with and without their path -/

/-- The path that branches are kept under. -/
def branchPath : String := "refs/heads/"

/-- A name begins with the path. -/
def HasPath (name : String) : Prop := branchPath.toList <+: name.toList

instance (name : String) : Decidable (HasPath name) :=
  inferInstanceAs (Decidable (branchPath.toList <+: name.toList))

/-- A name again, or with the path in front of it if it had none. -/
def Fuller (name longer : String) : Prop :=
  longer = name ∨ (¬ HasPath name ∧ longer = branchPath ++ name)

theorem branchName_append (name : String) : branchName (branchPath ++ name) = name := by
  have hstrip : Text.stripPrefix? "refs/heads/" (branchPath ++ name) = some name :=
    Text.stripPrefix?_eq_some_iff.mpr rfl
  rw [branchName, hstrip, Option.getD_some]

theorem branchName_of_not_hasPath {name : String} (h : ¬ HasPath name) : branchName name = name := by
  cases hstrip : Text.stripPrefix? "refs/heads/" name with
  | none => rw [branchName, hstrip, Option.getD_none]
  | some rest =>
      exact absurd (Text.prefix_of_stripPrefix?_isSome (Option.isSome_of_eq_some hstrip)) h

/-- A name is its own short form, with the path or nothing in front of it. -/
theorem exists_front (name : String) :
    ∃ front, name.toList = front ++ (branchName name).toList ∧ ∀ c ∈ front, IsOrdinary c := by
  by_cases h : HasPath name
  · obtain ⟨rest, hrest⟩ := h
    have hname : name = branchPath ++ String.ofList rest := by
      rw [← String.toList_inj, String.toList_append, String.toList_ofList, hrest]
    have hordinary : branchPath.toList.all (decide <| IsOrdinary ·) = true := by decide
    rw [List.all_eq_true] at hordinary
    refine ⟨branchPath.toList, ?_, fun c hc => of_decide_eq_true (hordinary c hc)⟩
    rw [hname, branchName_append, String.toList_append]
  · exact ⟨[], by rw [branchName_of_not_hasPath h, List.nil_append], List.forall_mem_nil _⟩

theorem isOrdinary_of_isBlank {c : Char} (h : Text.isBlank c = true) : IsOrdinary c := by
  refine ⟨?_, ?_, ?_⟩ <;> rintro rfl <;> cases h

/-- What is trimmed off a short form are ordinary characters too, if no blanks end it. -/
theorem exists_front_trim {name : String}
    (h : ∀ c ∈ (branchName name).toList.getLast?, Text.isBlank c = false) :
    ∃ front, name.toList = front ++ (Text.trim (branchName name)).toList ∧
      ∀ c ∈ front, IsOrdinary c := by
  obtain ⟨front, hfront, hordinary⟩ := exists_front name
  have hblanks := List.takeWhile_append_dropWhile (p := Text.isBlank) (l := (branchName name).toList)
  refine ⟨front ++ (branchName name).toList.takeWhile Text.isBlank, ?_, fun c hc => ?_⟩
  · rw [Text.toList_trim_of_last h, Text.dropBlanks, List.append_assoc, hblanks, hfront]
  · rcases List.mem_append.mp hc with hc | hc
    · exact hordinary c hc
    · exact isOrdinary_of_isBlank (List.all_eq_true.mp List.all_takeWhile c hc)

/-- The path in front of a name does not change what it is short for. -/
theorem Fuller.branchName_eq {name longer : String} (h : Fuller name longer) :
    branchName longer = branchName name := by
  rcases h with rfl | ⟨hbare, rfl⟩
  · rfl
  · rw [branchName_append, branchName_of_not_hasPath hbare]

/-! ### Filters -/

/-- A filter of branches: a glob, and whether the branches it matches are excluded. -/
structure BranchFilter where
  excluded : Bool
  glob : String

namespace BranchFilter

variable {f g : BranchFilter}

/-- A filter as an item of a list: `!` stands in front of a glob that excludes. -/
def entry (f : BranchFilter) : String := if f.excluded then "!" ++ f.glob else f.glob

/-- A filter without the path, as it is kept. -/
def bare (f : BranchFilter) : String :=
  if f.excluded then "!" ++ branchName f.glob else branchName f.glob

/-- The glob has no blanks around it and is a pattern. -/
structure IsPlain (f : BranchFilter) : Prop where
  trimmed : Text.trim f.glob = f.glob
  compiles : ∃ p, Pattern.compile f.glob = .ok p

/-- The same filter, with the path in front of its glob perhaps. -/
structure Respells (f g : BranchFilter) : Prop where
  excluded : g.excluded = f.excluded
  glob : Fuller f.glob g.glob

theorem Respells.bare_eq (h : Respells f g) : g.bare = f.bare := by
  rw [bare, bare, h.excluded, h.glob.branchName_eq]

theorem Respells.trimmed (h : Respells f g) (hf : Text.trim f.glob = f.glob) :
    Text.trim g.glob = g.glob := by
  rcases h.glob with hglob | ⟨-, hglob⟩
  · rw [hglob, hf]
  · rw [hglob]
    exact Text.trim_append (by decide) (by decide) (by decide) (Text.isBlank_last_of_trim hf)

/-! ### Reading a filter -/

/-- A mark keeps the blanks behind it. -/
theorem trim_mark {s : String} (h : ∀ c ∈ s.toList.getLast?, Text.isBlank c = false) :
    Text.trim ("!" ++ s) = "!" ++ s :=
  Text.trim_append (by decide) (by decide) (by decide) h

theorem patternEntry_glob (h : Text.trim f.glob = f.glob) :
    patternEntry f.excluded f.glob = f.bare := by
  rw [patternEntry, h]
  rfl

/-- An item of a list comes down to the bare filter, unless its mark hides the path. -/
theorem patternEntry_entry (h : Text.trim f.glob = f.glob)
    (hmark : f.excluded = true → ¬ HasPath f.glob) : patternEntry false f.entry = f.bare := by
  cases hexcluded : f.excluded with
  | false =>
      rw [← patternEntry_glob h, entry, hexcluded]
      rfl
  | true =>
      have hpath : ¬ HasPath ("!" ++ f.glob) := by
        rintro ⟨rest, hrest⟩
        rw [String.toList_append] at hrest
        cases hrest
      rw [entry, bare, hexcluded, if_pos rfl, if_pos rfl, branchName_of_not_hasPath (hmark hexcluded),
        patternEntry, trim_mark (Text.isBlank_last_of_trim h), branchName_of_not_hasPath hpath]
      rfl

/-- The pattern of a bare filter compiles. -/
theorem IsPlain.exists_compile (h : f.IsPlain) :
    ∃ p, Pattern.compile (Glob.entryParts f.bare).2 = .ok p := by
  have hlast : ∀ c ∈ (branchName f.glob).toList.getLast?, Text.isBlank c = false := by
    intro c hc
    obtain ⟨front, hfront, -⟩ := exists_front f.glob
    refine Text.isBlank_last_of_trim h.trimmed c ?_
    rw [hfront, List.getLast?_append, Option.mem_def.mp hc]
    rfl
  cases hexcluded : f.excluded with
  | true =>
      obtain ⟨front, hfront, hordinary⟩ := exists_front f.glob
      have htrim : (Text.trim f.bare).toList = '!' :: (branchName f.glob).toList := by
        rw [bare, hexcluded, if_pos rfl, trim_mark hlast, String.toList_append]
        rfl
      rw [Glob.entryParts_excluded htrim, String.ofList_toList]
      exact Glob.exists_compile_of_append hfront hordinary h.compiles
  | false =>
      have hbare : f.bare = branchName f.glob := by
        rw [bare, hexcluded]
        rfl
      obtain ⟨front, hfront, hordinary⟩ := exists_front_trim hlast
      rw [← hbare] at hfront
      have hcompiles := Glob.exists_compile_of_append hfront hordinary h.compiles
      -- behind the path, the glob may begin with a mark, which is one more ordinary character
      by_cases hmark : ∃ rest, (Text.trim f.bare).toList = '!' :: rest
      · obtain ⟨rest, hrest⟩ := hmark
        rw [Glob.entryParts_excluded hrest]
        have hsource : (Text.trim f.bare).toList = ['!'] ++ (String.ofList rest).toList := by
          rw [hrest, String.toList_ofList]
          rfl
        have hordinary := List.forall_mem_singleton.mpr (show IsOrdinary '!' by decide)
        exact Glob.exists_compile_of_append hsource hordinary hcompiles
      · rw [Glob.entryParts_included (not_exists.mp hmark)]
        exact hcompiles

end BranchFilter

/-! ### Sections -/

/-- A sequence of scalars with these texts. -/
def Lists (t : Token) (texts : List String) : Prop :=
  ∃ o items, t = .sequence o items ∧ items.map Token.display? = texts.map some

theorem mapM_expectText (what : String) {items : List Token} {texts : List String}
    (h : items.map Token.display? = texts.map some) :
    items.mapM (·.expectText what) = .ok texts := by
  induction items generalizing texts with
  | nil =>
      obtain rfl := List.map_eq_nil_iff.mp h.symm
      rfl
  | cons item rest ih =>
      obtain ⟨text, texts, rfl, htext, hrest⟩ := List.map_eq_cons_iff.mp h.symm
      have hitem : item.expectText what = .ok text := by
        rw [Token.expectText, ← htext]
      rw [List.mapM_cons, hitem, ih hrest.symm]
      rfl

theorem Lists.expectTexts {t : Token} {texts : List String} (h : Lists t texts) (what : String) :
    t.expectTexts what = .ok texts := by
  obtain ⟨o, items, rfl, hitems⟩ := h
  exact mapM_expectText what hitems

/-- A list stands for entries that each may have a mark. -/
theorem Lists.filterEntries_eq {t : Token} {texts : List String} (h : Lists t texts)
    (what : String) : filterEntries what t = .ok (texts.map (patternEntry false)) := by
  have htexts := h.expectTexts what
  obtain ⟨o, items, rfl, -⟩ := h
  exact bind_eq_ok.mpr ⟨texts, htexts, rfl⟩

/-- How the filters of a section are written. -/
inductive Spelling where
  | list
  | branches
  | pair

/-- The globs of the filters of one kind. -/
def globs (excluded : Bool) (fs : List BranchFilter) : List String :=
  (fs.filter (·.excluded = excluded)).map (·.glob)

/-- A section gives filters in a spelling. -/
inductive Spells (fs : List BranchFilter) : Spelling → Token → Prop
  | list {t : Token} (h : Lists t (fs.map (·.entry))) : Spells fs .list t
  | branches {o : Origin} {k : Key} {t : Token} (hk : k.name = "branches")
      (h : Lists t (fs.map (·.entry))) : Spells fs .branches (.mapping o [(k, t)])
  | pair {o o' : Origin} {k included excluded : Key} {t u : Token} (hk : k.name = "branches")
      (hincluded : included.name = "include") (hexcluded : excluded.name = "exclude")
      (ht : Lists t (globs false fs)) (hu : Lists u (globs true fs)) :
      Spells fs .pair (.mapping o [(k, .mapping o' [(included, t), (excluded, u)])])

/-- No glob behind a mark begins with the path. -/
def MarksBare (fs : List BranchFilter) : Prop :=
  ∀ f ∈ fs, f.excluded = true → ¬ HasPath f.glob

variable {fs gs : List BranchFilter} {x y : Spelling} {s t : Token} {entries : List String}
  {set : PatternSet}

theorem filters_eq_ok {what : String} {whole : Token} (h : filterEntries what t = .ok entries)
    (hset : PatternSet.compile entries = .ok set) : Trigger.filters what whole t = .ok set :=
  bind_eq_ok.mpr ⟨entries, h, mapError_eq_ok.mpr hset⟩

/-- The items of a list come down to the bare filters. -/
theorem map_patternEntry_entry (htrim : ∀ f ∈ fs, Text.trim f.glob = f.glob) (hmarks : MarksBare fs) :
    (fs.map (·.entry)).map (patternEntry false) = fs.map (·.bare) := by
  rw [List.map_map]
  refine List.map_congr_left fun f hf => ?_
  rw [Function.comp_apply]
  exact BranchFilter.patternEntry_entry (htrim f hf) (hmarks f hf)

/-- Either half of a pair comes down to the bare filters of one kind. -/
theorem map_patternEntry_glob (htrim : ∀ f ∈ fs, Text.trim f.glob = f.glob) (b : Bool) :
    (globs b fs).map (patternEntry b) = (fs.filter (·.excluded = b)).map (·.bare) := by
  rw [globs, List.map_map]
  refine List.map_congr_left fun f hf => ?_
  obtain ⟨hf, hb⟩ := List.mem_filter.mp hf
  rw [← BranchFilter.patternEntry_glob (htrim f hf), of_decide_eq_true hb]
  rfl

/-- A section that is a mapping with branches alone. -/
theorem ofToken?_branches {o : Origin} {k : Key} (name : String) (hk : k.name = "branches")
    (h : filterEntries "branches" t = .ok entries) (hset : PatternSet.compile entries = .ok set) :
    Trigger.ofToken? name (some (.mapping o [(k, t)])) = .ok { branches := set } := by
  have hread : Trigger.read (.mapping o [(k, t)]) {} (k, t) = .ok { branches := set } := by
    simp only [Trigger.read, hk]
    exact bind_eq_ok.mpr ⟨set, filters_eq_ok h hset, rfl⟩
  have hfold : [(k, t)].foldlM (Trigger.read (.mapping o [(k, t)])) {} =
      .ok ({ branches := set } : Trigger) := by
    rw [List.foldlM_cons, hread]
    rfl
  exact hfold

/-- What is included comes before what is excluded. -/
theorem filterEntries_pair {included excluded : Key} {u : Token} {texts others : List String}
    (what : String) (o : Origin) (hincluded : included.name = "include")
    (hexcluded : excluded.name = "exclude") (ht : Lists t texts) (hu : Lists u others) :
    filterEntries what (.mapping o [(included, t), (excluded, u)]) =
      .ok (texts.map (patternEntry false) ++ others.map (patternEntry true)) := by
  have hfirst : Trigger.partEntries what (included, t) = .ok (texts.map (patternEntry false)) := by
    simp only [Trigger.partEntries, hincluded, ht.expectTexts what]
    rfl
  have hsecond : Trigger.partEntries what (excluded, u) = .ok (others.map (patternEntry true)) := by
    simp only [Trigger.partEntries, hexcluded, hu.expectTexts what]
    rfl
  have hboth : [(included, t), (excluded, u)].mapM (Trigger.partEntries what) =
      .ok [texts.map (patternEntry false), others.map (patternEntry true)] := by
    rw [List.mapM_cons, hfirst, List.mapM_cons, hsecond]
    rfl
  refine bind_eq_ok.mpr ⟨_, hboth, ?_⟩
  simp
  rfl

/-- **Each spelling comes down to the bare entries of its filters**, in some order. -/
theorem exists_entries_of_spells (name : String) (hs : Spells fs x s)
    (htrim : ∀ f ∈ fs, Text.trim f.glob = f.glob) (hmarks : x = .pair ∨ MarksBare fs) :
    ∃ entries : List String, (∀ e, e ∈ entries ↔ e ∈ fs.map (·.bare)) ∧
      ∀ set, PatternSet.compile entries = .ok set →
        Trigger.ofToken? name (some s) = .ok { branches := set } := by
  cases hs with
  | list h =>
      have hentries := h.filterEntries_eq name
      rw [map_patternEntry_entry htrim (hmarks.resolve_left nofun)] at hentries
      refine ⟨_, fun e => Iff.rfl, fun set hset => ?_⟩
      obtain ⟨o, items, rfl, -⟩ := h
      exact bind_eq_ok.mpr ⟨set, filters_eq_ok hentries hset, rfl⟩
  | branches hk h =>
      have hentries := h.filterEntries_eq "branches"
      rw [map_patternEntry_entry htrim (hmarks.resolve_left nofun)] at hentries
      exact ⟨_, fun e => Iff.rfl, fun set hset => ofToken?_branches name hk hentries hset⟩
  | pair hk hincluded hexcluded ht hu =>
      have hentries := fun o => filterEntries_pair "branches" o hincluded hexcluded ht hu
      refine ⟨_, fun e => ?_, fun set hset => ofToken?_branches name hk (hentries _) hset⟩
      rw [map_patternEntry_glob htrim, map_patternEntry_glob htrim]
      simp only [List.mem_append, List.mem_map, List.mem_filter, decide_eq_true_eq]
      constructor
      · rintro (⟨f, ⟨hf, -⟩, rfl⟩ | ⟨f, ⟨hf, -⟩, rfl⟩) <;> exact ⟨f, hf, rfl⟩
      · rintro ⟨f, hf, rfl⟩
        cases hexcluded : f.excluded with
        | false => exact .inl ⟨f, ⟨hf, hexcluded⟩, rfl⟩
        | true => exact .inr ⟨f, ⟨hf, hexcluded⟩, rfl⟩

/-- A section fires on the branches that the bare filters admit. -/
theorem fires_of_spells (name : String) (hs : Spells fs x s)
    (htrim : ∀ f ∈ fs, Text.trim f.glob = f.glob) (hmarks : x = .pair ∨ MarksBare fs)
    (hset : PatternSet.compile (fs.map (·.bare)) = .ok set) :
    ∃ u, Trigger.ofToken? name (some s) = .ok u ∧
      ∀ branch changed, u.fires branch changed = set.admits (branchName branch) := by
  obtain ⟨entries, hmem, hread⟩ := exists_entries_of_spells name hs htrim hmarks
  obtain ⟨set', hset', hadmits⟩ := PatternSet.exists_compile_of_mem_iff hset hmem
  refine ⟨_, hread set' hset', fun branch changed => ?_⟩
  rw [← hadmits, Trigger.fires]
  simp [PatternSet.isEmpty]

/-- The path in front of globs is seen neither in the bare filters nor by trimming. -/
theorem bare_eq_of_respells (h : List.Forall₂ BranchFilter.Respells fs gs)
    (htrim : ∀ f ∈ fs, Text.trim f.glob = f.glob) :
    gs.map (·.bare) = fs.map (·.bare) ∧ ∀ g ∈ gs, Text.trim g.glob = g.glob := by
  induction h with
  | nil => exact ⟨rfl, List.forall_mem_nil _⟩
  | cons hfirst _ ih =>
      obtain ⟨hf, hrest⟩ := List.forall_mem_cons.mp htrim
      obtain ⟨hbare, htrimmed⟩ := ih hrest
      rw [List.map_cons, List.map_cons, hfirst.bare_eq, hbare]
      exact ⟨rfl, List.forall_mem_cons.mpr ⟨hfirst.trimmed hf, htrimmed⟩⟩

/-- **All spellings of branch filters mean the same.** Whether filters are listed, listed under
`branches` or listed there by what they do, and whether their globs and the branch are written with
the path of branches in front or without it, a section is read and fires on the same branches,
whatever has changed; only where a glob behind a `!` has the path may this fail. -/
theorem fires_of_respells {a b : String} (name : String) (hs : Spells fs x s) (ht : Spells gs y t)
    (hplain : ∀ f ∈ fs, f.IsPlain) (hrespells : List.Forall₂ BranchFilter.Respells fs gs)
    (hbranch : Fuller a b) (hx : x = .pair ∨ MarksBare fs) (hy : y = .pair ∨ MarksBare gs) :
    ∃ u v, Trigger.ofToken? name (some s) = .ok u ∧ Trigger.ofToken? name (some t) = .ok v ∧
      ∀ changed, u.fires a changed = v.fires b changed := by
  have htrim : ∀ f ∈ fs, Text.trim f.glob = f.glob := fun f hf => (hplain f hf).trimmed
  obtain ⟨set, hset⟩ : ∃ set, PatternSet.compile (fs.map (·.bare)) = .ok set :=
    PatternSet.exists_compile_iff.mpr
      (List.forall_mem_map.mpr fun f hf => (hplain f hf).exists_compile)
  obtain ⟨hbare, htrim'⟩ := bare_eq_of_respells hrespells htrim
  obtain ⟨u, hu, hfires⟩ := fires_of_spells name hs htrim hx hset
  obtain ⟨v, hv, hfires'⟩ := fires_of_spells name ht htrim' hy (hbare ▸ hset)
  refine ⟨u, v, hu, hv, fun changed => ?_⟩
  rw [hfires, hfires', hbranch.branchName_eq]

/-- Texts as a sequence. -/
def itemsOf (texts : List String) : Token := .ofItems (texts.map .ofText)

/-- Branches to include and to exclude, as a section. -/
def pairOf (included excluded : List String) : Token :=
  .ofPairs [("branches", .ofPairs [("include", itemsOf included), ("exclude", itemsOf excluded)])]

/-- Filters of the main branch and all releases but an old one. -/
def releaseFilters : List BranchFilter :=
  [⟨false, "main"⟩, ⟨false, "releases/*"⟩, ⟨true, "releases/old"⟩]

/-- The same with the path in front of two globs. -/
def fullReleaseFilters : List BranchFilter :=
  [⟨false, "refs/heads/main"⟩, ⟨false, "releases/*"⟩, ⟨true, "refs/heads/releases/old"⟩]

/-- The filters as a list, with a mark. -/
def releaseList : Token := itemsOf ["main", "releases/*", "!releases/old"]

/-- The filters by what they do, with the path also in front of what is excluded. -/
def fullReleasePair : Token :=
  pairOf ["refs/heads/main", "releases/*"] ["refs/heads/releases/old"]

theorem fires_of_respells_releases :
    Spells releaseFilters .list releaseList ∧ Spells fullReleaseFilters .pair fullReleasePair ∧
      (∀ f ∈ releaseFilters, f.IsPlain) ∧
      List.Forall₂ BranchFilter.Respells releaseFilters fullReleaseFilters ∧
      Fuller "releases/v1" "refs/heads/releases/v1" ∧ MarksBare releaseFilters ∧
      ∃ u v, Trigger.ofToken? "trigger" (some releaseList) = .ok u ∧
        Trigger.ofToken? "trigger" (some fullReleasePair) = .ok v ∧
        ∀ changed, u.fires "releases/v1" changed = v.fires "refs/heads/releases/v1" changed := by
  have hlist : Spells releaseFilters .list releaseList := .list ⟨_, _, rfl, rfl⟩
  have hpair : Spells fullReleaseFilters .pair fullReleasePair :=
    .pair rfl rfl rfl ⟨_, _, rfl, rfl⟩ ⟨_, _, rfl, rfl⟩
  have hplain : ∀ f ∈ releaseFilters, f.IsPlain := by
    simp only [releaseFilters, List.forall_mem_cons]
    exact ⟨⟨by decide, _, rfl⟩, ⟨by decide, _, rfl⟩, ⟨by decide, _, rfl⟩, List.forall_mem_nil _⟩
  have hrespells : List.Forall₂ BranchFilter.Respells releaseFilters fullReleaseFilters :=
    .cons ⟨rfl, .inr ⟨by decide, by decide⟩⟩
      (.cons ⟨rfl, .inl rfl⟩ (.cons ⟨rfl, .inr ⟨by decide, by decide⟩⟩ .nil))
  have hbranch : Fuller "releases/v1" "refs/heads/releases/v1" := .inr ⟨by decide, by decide⟩
  have hmarks : MarksBare releaseFilters := by
    simp only [MarksBare, releaseFilters, List.forall_mem_cons]
    decide
  exact ⟨hlist, hpair, hplain, hrespells, hbranch, hmarks, fires_of_respells "trigger" hlist hpair
    hplain hrespells hbranch (.inr hmarks) (.inl rfl)⟩

/-- A branch that is excluded, with the path in front of its name. -/
def hiddenPath : List BranchFilter := [⟨true, "refs/heads/old"⟩]

/-- Behind a mark the path is not taken off: the list fires on the branch that the pair excludes. -/
theorem fires_hiddenPath :
    (∀ f ∈ hiddenPath, f.IsPlain) ∧ Spells hiddenPath .list (itemsOf ["!refs/heads/old"]) ∧
      Spells hiddenPath .pair (pairOf [] ["refs/heads/old"]) ∧
      ∃ u v, Trigger.ofToken? "trigger" (some (itemsOf ["!refs/heads/old"])) = .ok u ∧
        Trigger.ofToken? "trigger" (some (pairOf [] ["refs/heads/old"])) = .ok v ∧
        u.fires "old" [] = true ∧ v.fires "old" [] = false :=
  ⟨List.forall_mem_singleton.mpr ⟨by decide, _, rfl⟩, .list ⟨_, _, rfl, rfl⟩,
    .pair rfl rfl rfl ⟨_, _, rfl, rfl⟩ ⟨_, _, rfl, rfl⟩, _, _, rfl, rfl, by decide, by decide⟩

end PipelineExpansion.Pipeline
