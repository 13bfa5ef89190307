import PipelineExpansion.Proofs.Pipeline.Locality
import PipelineExpansion.Proofs.Template.RelativePath

/-!
# Chains of references

A template may refer to another one, which may refer to a third, and so on. A reference without an alias is
seen from the directory of the template that it stands in. That directory is what is left of the path of
the template when its last name is taken away, so the next reference is one that leads up first, seen from
that path. As paths seen from one another compose, a chain of references asks for one path, seen from where
the chain begins: all references behind each other, with `/../` between them.

## Main results

* `Follows.relativeTo`: what is seen at the end of a chain.
* `asked_of_follows`: the file that is asked for at the end of a chain.
-/

namespace PipelineExpansion.Pipeline

open Template

variable {α β : Type} {c c' : Context} {n : Nat} {reference definition path : String}
  {repository : Option String} {parameters : Option Token} {j j' : Journal}

/-- A context is one in which the references of a template are followed. -/
def Loaded.HandsOn (loaded : Loaded) (c : Context) : Prop :=
  c = loaded.context ∨ withOwnRepositories loaded = .ok c

/-- A context is reached by following references, none of which has an alias, each in the template that the
one before it leads to. -/
inductive Follows (c : Context) : List String → Context → Prop where
  | start : Follows c [] c
  | next {references : List String} {c' c'' : Context} {reference definition : String} {n : Nat}
      {parameters : Option Token} {j j' : Journal} {loaded : Loaded}
      (h : Follows c references c') (halias : '@' ∉ reference.toList)
      (hread : (readTemplate (Pipeline.references n) c' reference parameters definition).run.run j =
        some (.ok loaded, j'))
      (hcontext : loaded.HandsOn c'') : Follows c (references ++ [reference]) c''

/-! ### One reference -/

theorem locate_of_noAlias (c : Context) (halias : '@' ∉ reference.toList) :
    c.locate reference = .ok (relativeTo (c.directory.getD ".") reference, c.repository) := by
  have hsplit : Text.splitOnce? "@" reference = none := by
    rw [Text.splitOnce?, Option.map_eq_none_iff, ← Option.not_isSome_iff_eq_none, Text.cut?_isSome]
    exact fun h => halias (h.subset List.mem_cons_self)
  rw [Context.locate, hsplit]

/-- The context of a template that was read. -/
theorem context_of_readTemplate {refs : References} {loaded : Loaded}
    (hlocate : c.locate reference = .ok (path, repository))
    (hread : (readTemplate refs c reference parameters definition).run.run j = some (.ok loaded, j')) :
    loaded.context = c.child path repository := by
  simp only [readTemplate, hlocate, Resolve.ofExcept, pure_bind] at hread
  obtain ⟨_, _, -, hread⟩ := Resolve.run_bind_eq_ok.mp hread
  obtain ⟨_, _, -, hread⟩ := Resolve.run_bind_eq_ok.mp hread
  cases hread
  rfl

/-- References are followed in the directory of the template and in its repository. -/
theorem Loaded.HandsOn.place {loaded : Loaded} (h : loaded.HandsOn c) :
    c.directory = loaded.context.directory ∧ c.repository = loaded.context.repository := by
  rcases h with rfl | h
  · exact ⟨rfl, rfl⟩
  · obtain ⟨aliases, -, hc⟩ := bind_eq_ok.mp h
    cases hc
    exact ⟨rfl, rfl⟩

/-! ### The file that is asked for -/

/-- A step asks for a file before any other. -/
def Asks (place : Option String × String) (x : Resolve α) : Prop :=
  ∀ j r j', x.run.run j = some (r, j') → j.reads ++ [place] <+: j'.reads

variable {place : Option String × String} {x : Resolve α} {f : α → Resolve β}

theorem asks_readFile (files : Files) (repository : Option String) (path : String) :
    Asks (repository, path) (Resolve.readFile files repository path) := by
  intro j r j' hrun
  rw [Resolve.run_readFile] at hrun
  cases hrun
  exact List.prefix_refl _

/-- What comes behind the file that is asked for takes nothing back. -/
theorem Asks.bind (h : Asks place x)
    (h' : ∀ a j r j', (f a).run.run j = some (r, j') → j.reads <+: j'.reads) :
    Asks place (x >>= f) := by
  intro j r j' hrun
  rw [Resolve.run_bind] at hrun
  rcases hx : x.run.run j with _ | ⟨d | a, j₁⟩ <;> rw [hx] at hrun
  · cases hrun
  · cases hrun
    exact h j _ _ hx
  · exact (h j _ _ hx).trans (h' a j₁ r j' hrun)

theorem Asks.inFile (h : Asks place x) (name : String) : Asks place (Resolve.inFile name x) := by
  intro j r j' hrun
  rw [Resolve.run_inFile] at hrun
  obtain ⟨⟨r, j'⟩, hx, hpair⟩ := Option.map_eq_some_iff.mp hrun
  cases hpair
  exact h j r j' hx

/-- A note asks for no file. -/
theorem asks_note_bind {f : Unit → Resolve β} (message : String) (h : Asks place (f ())) :
    Asks place (Resolve.note message >>= f) := by
  intro j r j' hrun
  rw [Resolve.run_bind, Resolve.run_note] at hrun
  exact h { j with notes := j.notes ++ [message] } r j' hrun

theorem asks_openTemplate (c : Context) (path : String) :
    Asks (c.repository, path) (openTemplate c path) := by
  have hrest (content : String) : Local c.files c.files (fun _ => True)
      (textTemplate c.limits (displayName path c.repository) content)
      (textTemplate c.limits (displayName path c.repository) content) := local_textTemplate _ _ _
  rw [openTemplate_eq]
  exact ((asks_readFile c.files c.repository path).bind fun content => (hrest content).reads).inFile _

/-- Filling a template takes back no file that was asked for. -/
theorem local_fillTemplate (n : Nat) (c : Context) (parameters : Option Token) (definition : String)
    (opened : Token × Usage) :
    Local c.files c.files (·.1.From Set.univ)
      (fillTemplate (references n) c parameters definition opened)
      (fillTemplate (references n) c parameters definition opened) := by
  have hnone {α : Type} {P : α → Prop} (y : Resolve α) : Local c.files c.files P .unfinished y :=
    ⟨Resolve.yields_unfinished P, nofun, nofun⟩
  let C := locality c.files c.files c.limits
  have hrefs : C.Related n (references n) (references n) :=
    C.references (C.related_none hnone (references 0)) n
  exact C.fillTemplate hrefs c (fun t _ => from_univ t) definition (from_univ opened.1)

/-- **The first file that is asked for** where a template is read is the one that the reference leads to. -/
theorem asks_readTemplate (hlocate : c.locate reference = .ok (path, repository)) (n : Nat)
    (parameters : Option Token) (definition : String) :
    Asks (repository, path) (readTemplate (references n) c reference parameters definition) := by
  have hload : Resolve.inFile (displayName path repository)
      (loadTemplate (references n) (c.child path repository) path parameters definition) =
        openTemplate (c.child path repository) path >>= fun opened =>
          Resolve.inFile (displayName path repository)
            (fillTemplate (references n) (c.child path repository) parameters definition opened) :=
    inFile_loadTemplate (references n) (c.child path repository) path parameters definition
  simp only [readTemplate, hlocate, Resolve.ofExcept, pure_bind, hload, bind_assoc]
  refine asks_note_bind _ (Asks.bind (asks_openTemplate _ path) fun opened => ?_)
  have hfill := (local_fillTemplate n (c.child path repository) parameters definition opened).inFile
    (displayName path repository)
  have hfinish (filled : Token × Usage) : Local c.files c.files (fun _ => True)
      (pure (Loaded.mk filled.1 (c.child path repository) (displayName path repository) filled.2))
      (pure (Loaded.mk filled.1 (c.child path repository) (displayName path repository) filled.2)) :=
    local_pure trivial
  exact (hfill.bind fun filled _ => hfinish filled).reads

/-! ### Chains -/

/-- **What is seen at the end of a chain** is seen from where the chain begins, behind the references of the
chain. -/
theorem Follows.relativeTo {references : List String} (h : Follows c references c')
    (reference : String) :
    Template.relativeTo (c'.directory.getD ".") reference =
      Template.relativeTo (c.directory.getD ".") (Text.join "/../" (references ++ [reference])) := by
  induction h generalizing reference with
  | start => rw [List.nil_append, Text.join, String.intercalate_singleton]
  | @next references c' c'' last definition n parameters j j' loaded h halias hread hcontext ih =>
      rw [hcontext.place.1, context_of_readTemplate (locate_of_noAlias c' halias) hread,
        Context.child, (normal_relativeTo _ _).relativeTo_directoryOf, relativeTo_relativeTo, ih]
      have hlast : last ++ "/" ++ ("../" ++ reference) = last ++ "/../" ++ reference := by
        simp [← String.toList_inj]
      rw [hlast, Text.join_append_pair]

theorem Follows.repository_eq {references : List String} (h : Follows c references c') :
    c'.repository = c.repository := by
  induction h with
  | start => rfl
  | @next references c' c'' last definition n parameters j j' loaded h halias hread hcontext ih =>
      rw [hcontext.place.2, context_of_readTemplate (locate_of_noAlias c' halias) hread,
        Context.child, ih]

/-- **The file that is asked for at the end of a chain.** -/
theorem asked_of_follows {references : List String} (h : Follows c references c')
    (halias : '@' ∉ reference.toList) {outcome : Except Diagnostic Loaded}
    (hrun : (readTemplate (Pipeline.references n) c' reference parameters definition).run.run j =
      some (outcome, j')) :
    j.reads ++ [(c.repository, Template.relativeTo (c.directory.getD ".")
      (Text.join "/../" (references ++ [reference])))] <+: j'.reads := by
  have hreads := asks_readTemplate (locate_of_noAlias c' halias) n parameters definition _ _ _ hrun
  rwa [h.relativeTo, h.repository_eq] at hreads

end PipelineExpansion.Pipeline
