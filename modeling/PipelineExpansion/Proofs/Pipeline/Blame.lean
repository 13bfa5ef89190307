import PipelineExpansion.Proofs.Pipeline.Locality

/-!
# Where a failed load points

A diagnostic may carry a span and may name a file. The two are recorded apart: the span is that of a
token or of the scan of a text, and the file is named by the first that hands the diagnostic on and
knows of one. What is certain is that both come from what the load has read (`place_of_ends`): the file
is one that was asked for, and the span is one of the text of such a file, or of the values that were
given for the parameters. They need not be of the same file, since the values and the sections of one
document are looked at on behalf of another. Only the fault of a document's own repository resources
names no file at all.

The proof is one more use of the congruence of loads. Only one of the two runs matters in it, and no
file can be read in it but those that the load asks for (`Files.only`).

## Main results

* `place_of_ends`: the file and the span of a failed load.
* `place_of_one_file`: where only one file is asked for, they are of that file.
-/

namespace PipelineExpansion

/-- Of some files, those at some places, each a repository and a path in it. -/
def Files.only (files : Files) (places : List (Option String × String)) : Files where
  read repository path :=
    if (repository, path) ∈ places then files.read repository path else .error (.notFound path)

theorem Files.read_only (files : Files) (places : List (Option String × String))
    (repository : Option String) (path : String) :
    (files.only places).read repository path =
      if (repository, path) ∈ places then files.read repository path else .error (.notFound path) :=
  rfl

/-- A diagnostic names one of some files, if it names any, and carries one of some spans, if it carries
any. -/
structure Diagnostic.PointsInto (S : Set Yaml.Span) (F : Set String) (d : Diagnostic) : Prop where
  file : ∀ f, d.file = some f → f ∈ F
  span : ∀ s, d.span = some s → s ∈ S

theorem Diagnostic.Within.pointsInto {S : Set Yaml.Span} {F : Set String} {d : Diagnostic}
    (h : d.Within S) : d.PointsInto S F where
  file f hf := by rw [h.file] at hf; cases hf
  span := h.span

theorem Diagnostic.PointsInto.withFile {S : Set Yaml.Span} {F : Set String} {d : Diagnostic}
    {name : String} (h : d.PointsInto S F) (hname : name ∈ F) : (d.withFile name).PointsInto S F where
  file := by
    intro f hf
    have hf : (d.file <|> some name) = some f := hf
    cases hown : d.file with
    | none =>
        rw [hown] at hf
        cases hf
        exact hname
    | some own =>
        rw [hown] at hf
        cases hf
        exact h.file _ hown
  span := h.span

namespace Pipeline

open Template

/-! ### Steps that point into what was read -/

/-- What a step returns has a property, and it points into some files and spans where it fails, unless
it has asked for a file outside of some places. -/
structure Aims {α : Type} (places : List (Option String × String)) (S : Set Yaml.Span)
    (F : Set String) (P : α → Prop) (x : Resolve α) : Prop where
  yields : Resolve.Yields x P
  fails : ∀ j d j', x.run.run j = some (.error d, j') → j'.reads ⊆ places → d.PointsInto S F

variable {places : List (Option String × String)} {S : Set Yaml.Span} {F : Set String} {α β : Type}
  {P : α → Prop} {Q : β → Prop} {x : Resolve α} {d : Diagnostic}

theorem Aims.bind {f : α → Resolve β} (h : Aims places S F P x)
    (h' : ∀ a, P a → Aims places S F Q (f a)) : Aims places S F Q (x >>= f) where
  yields := h.yields.bind fun a ha => (h' a ha).yields
  fails := by
    intro j d j' hrun
    rw [Resolve.run_bind] at hrun
    rcases hx : x.run.run j with _ | ⟨d' | a, j₁⟩ <;> rw [hx] at hrun
    · cases hrun
    · cases hrun
      exact h.fails j _ _ hx
    · exact (h' a (h.yields j a j₁ hx)).fails j₁ d j' hrun

theorem Aims.inFile {name : String} (h : Aims places S F P x) (hname : name ∈ F) :
    Aims places S F P (.inFile name x) where
  yields := h.yields.inFile name
  fails := by
    intro j d j' hrun hreads
    rw [Resolve.run_inFile] at hrun
    obtain ⟨⟨r, j₁⟩, hx, hpair⟩ := Option.map_eq_some_iff.mp hrun
    cases r with
    | ok a => cases hpair
    | error d' =>
        cases hpair
        exact (h.fails j d' _ hx hreads).withFile hname

theorem aims_ofExcept {x : Except Diagnostic α} (h : Keeps S x P) :
    Aims places S F P (.ofExcept x) where
  yields := Resolve.yields_ofExcept h.returns
  fails := by
    intro j d j' hrun _
    rw [Resolve.run_ofExcept] at hrun
    cases hrun
    exact (h.fault d rfl).pointsInto

theorem aims_charged {x y : Charged α} (h : Curbed S P x y) (u : Usage) :
    Aims places S F (fun r => P r.1) (Resolve.charged x u) where
  yields := by
    intro j r j' hrun
    rw [Resolve.run_charged] at hrun
    rcases hx : x.run.run u with ⟨d | a, u'⟩ <;> rw [hx] at hrun <;> cases hrun
    exact (h.returns u a u' hx).1
  fails := by
    intro j d j' hrun _
    rw [Resolve.run_charged] at hrun
    rcases hx : x.run.run u with ⟨d' | a, u'⟩ <;> rw [hx] at hrun <;> cases hrun
    exact (h.fails u _ u' hx).1.pointsInto

theorem aims_addFile (l : Limits) (name : String) :
    Aims places S F (fun _ => True) (Resolve.addFile l name) where
  yields := Resolve.yields_true _
  fails := by
    intro j d j' hrun _
    rw [Resolve.run_addFile] at hrun
    split at hrun <;> cases hrun
    exact (within_limit _).pointsInto

/-- A file that cannot be read is named in the words of where files are from. -/
theorem aims_readFile {files : Files} {repository : Option String} {path : String}
    {P : String → Prop} (hok : ∀ content, files.read repository path = .ok content → P content)
    (herror : ∀ fault f, files.read repository path = .error fault → fault.diagnostic.file = some f →
      f ∈ F) :
    Aims places S F P (Resolve.readFile files repository path) where
  yields := by
    intro j content j' hrun
    rw [Resolve.run_readFile] at hrun
    cases hread : files.read repository path <;> rw [hread] at hrun <;> cases hrun
    exact hok _ hread
  fails := by
    intro j d j' hrun _
    rw [Resolve.run_readFile] at hrun
    cases hread : files.read repository path with
    | ok content =>
        rw [hread] at hrun
        cases hrun
    | error fault =>
        rw [hread] at hrun
        cases hrun
        exact ⟨fun f => herror fault f hread, by cases fault <;> exact nofun⟩

/-! ### What was read -/

/-- The names of the files at some places. A file that cannot be read may be named otherwise. -/
def namesAt (files : Files) (places : List (Option String × String)) : Set String := fun name =>
  ∃ place ∈ places, displayName place.2 place.1 = name ∨
    ∃ fault, files.read place.1 place.2 = .error fault ∧ fault.diagnostic.file = some name

/-- The spans of the values that are given for parameters, and those of the texts of files. -/
def spansAt (files : Files) (parameters : Option Token) (places : List (Option String × String)) :
    Set Yaml.Span := fun s =>
  (∃ t, parameters = some t ∧ t.Bears s) ∨
    ∃ place ∈ places, ∃ content, files.read place.1 place.2 = .ok content ∧ s ∈ SpanOf content

/-- A template is opened where it may be read. -/
theorem aims_openTemplate (files : Files) (parameters : Option Token) (l : Limits) (c : Context)
    (path : String) :
    Aims places (spansAt files parameters places) (namesAt files places)
      (fun opened => opened.1.From (spansAt files parameters places) ∧
        displayName path c.repository ∈ namesAt files places)
      (openTemplate (c.under ⟨files.only places, l⟩) path) := by
  by_cases hplace : (c.repository, path) ∈ places
  · have hread : (files.only places).read c.repository path = files.read c.repository path := by
      rw [Files.read_only, if_pos hplace]
    have hname : displayName path c.repository ∈ namesAt files places := ⟨_, hplace, .inl rfl⟩
    refine Aims.inFile ?_ hname
    refine Aims.bind (P := fun content => SpanOf content ⊆ spansAt files parameters places)
      (aims_readFile (fun content hcontent => ?_) fun fault f hfault hf => ?_) fun content hspans => ?_
    · exact fun s hs => .inr ⟨_, hplace, content, hread.symm.trans hcontent, hs⟩
    · exact ⟨_, hplace, .inr ⟨fault, hread.symm.trans hfault, hf⟩⟩
    · refine Aims.bind (aims_charged (curbed_chargeBytes (.refl l) _) _) fun charge _ => ?_
      refine Aims.bind (aims_addFile l _) fun file _ => ?_
      have hroot := (keeps_ofText? (some file) content).mono hspans
      refine Aims.bind (aims_ofExcept hroot) fun root hroot => ?_
      exact aims_ofExcept (keeps_ok ⟨fun s hs => hspans (hroot s hs), hname⟩)
  · -- The file is asked for in vain, and outside of the places.
    have hrun (j : Journal) : (openTemplate (c.under ⟨files.only places, l⟩) path).run.run j =
        some (.error
          ((Files.Fault.notFound path).diagnostic.withFile (displayName path c.repository)),
          { j with reads := j.reads ++ [(c.repository, path)] }) := by
      rw [openTemplate, Resolve.run_inFile, Resolve.run_bind, Resolve.run_readFile, Context.under,
        Files.read_only, if_neg hplace]
      rfl
    constructor <;> intro j r j' hj <;> rw [hrun] at hj <;> cases hj
    intro hreads
    exact absurd (hreads (List.mem_append_right _ (List.mem_singleton_self _))) hplace

/-- To point into what may be read is a congruence. -/
def aiming (files : Files) (parameters : Option Token) (places : List (Option String × String))
    (l : Limits) : Congruence ⟨files.only places, l⟩ ⟨files.only places, l⟩
      (spansAt files parameters places) (namesAt files places) where
  Rel _ _ _ P x _ := Aims places (spansAt files parameters places) (namesAt files places) P x
  read h := aims_ofExcept h
  bind := .bind
  inFile hname h := h.inFile hname
  note _ := ⟨Resolve.yields_true _, nofun⟩
  opening c path := aims_openTemplate files parameters l c path
  evaluation u ht hnames := aims_charged (curbed_evaluate (.refl l) ht hnames) u
  wider h := h

section Run

variable {depth : Nat} {c : Context} {path p : String} {repository : Option String}
  {parameters : Option Token} {j j' : Journal}

/-- **A failed load points into what it has read.** -/
theorem pointsInto_of_run (hrun : (loadTo depth c path parameters).run.run {} = some (.error d, j)) :
    d.PointsInto (spansAt c.files parameters j.reads) (namesAt c.files j.reads) := by
  -- The files that were asked for are known when the load has failed, and it fails alike among these.
  have hsame : SameAt j.reads c.files (c.files.only j.reads) := by
    intro place hplace
    rw [Files.read_only, if_pos hplace]
  have hnone {α : Type} {P : α → Prop} : Aims j.reads (spansAt c.files parameters j.reads)
      (namesAt c.files j.reads) P .unfinished :=
    ⟨Resolve.yields_unfinished P, nofun⟩
  have haims := (aiming c.files parameters j.reads c.limits).load hnone depth c path
    (fun t ht s hs => .inl ⟨t, ht, hs⟩) Schema.pipelineRoot
  exact haims.fails {} d j (run_loadTo_congr_files hrun hsame) (List.Subset.refl _)

/-! ### Loads that name no file -/

theorem file_of_inFile {name : String}
    (hrun : (Resolve.inFile name x).run.run j = some (.error d, j')) : d.file ≠ none := by
  rw [Resolve.run_inFile] at hrun
  obtain ⟨⟨r, j₁⟩, -, hpair⟩ := Option.map_eq_some_iff.mp hrun
  cases r with
  | ok a => cases hpair
  | error d' =>
      cases hpair
      show (d'.file <|> some name) ≠ none
      cases d'.file <;> exact nofun

theorem file_of_readTemplate {refs : References} {definition : String}
    (hlocate : c.locate path = .ok (p, repository))
    (hrun : (readTemplate refs c path parameters definition).run.run j = some (.error d, j')) :
    d.file ≠ none := by
  simp only [readTemplate, hlocate, Resolve.ofExcept, pure_bind] at hrun
  rw [Resolve.run_bind, Resolve.run_note] at hrun
  simp only [Resolve.run_bind] at hrun
  split at hrun
  · cases hrun
  · next hload =>
    cases hrun
    exact file_of_inFile hload
  · cases hrun

/-- Where a document can be located, only the fault of its own repository resources names no file. -/
theorem repositoryAliases_of_run (hlocate : c.locate path = .ok (p, repository))
    (hrun : (loadTo depth c path parameters).run.run {} = some (.error d, j)) (hfile : d.file = none) :
    ∃ loaded j', (readTemplate (references depth) c path parameters Schema.pipelineRoot).run.run {} =
        some (.ok loaded, j') ∧ repositoryAliases loaded.token = .error d := by
  rw [loadTo, pipelineOf, Resolve.run_bind] at hrun
  split at hrun
  · next loaded j₁ hloaded =>
    refine ⟨loaded, j₁, hloaded, ?_⟩
    rw [Resolve.run_bind, Resolve.run_ofExcept, withOwnRepositories] at hrun
    cases haliases : repositoryAliases loaded.token with
    | error d' =>
        rw [haliases] at hrun
        cases hrun
        rfl
    | ok aliases =>
        rw [haliases] at hrun
        exact absurd hfile (file_of_inFile hrun)
  · next hloaded =>
    cases hrun
    exact absurd hfile (file_of_readTemplate hlocate hloaded)
  · cases hrun

/-! ### The place of a failed load -/

/-- A load that asks for one file, and is given no values, points into that file or names none. -/
theorem place_of_one_file {content : String} (hread : c.files.read repository p = .ok content)
    (hends : Ends c path none (.error d, j)) (hone : j.reads = [(repository, p)]) :
    (d.file = none ∨ d.file = some (displayName p repository)) ∧
      ∀ s, d.span = some s → s ∈ SpanOf content := by
  obtain ⟨depth, hrun⟩ := hends
  have hpoints := pointsInto_of_run hrun
  rw [hone] at hpoints
  refine ⟨?_, fun s hs => ?_⟩
  · cases hfile : d.file with
    | none => exact .inl rfl
    | some f =>
        obtain ⟨place, hplace, hname⟩ := hpoints.file f hfile
        cases List.mem_singleton.mp hplace
        rcases hname with rfl | ⟨fault, hfault, -⟩
        · exact .inr rfl
        · rw [hread] at hfault
          cases hfault
  · rcases hpoints.span s hs with ⟨t, ⟨⟩, -⟩ | ⟨place, hplace, content', hread', hs⟩
    cases List.mem_singleton.mp hplace
    rw [hread] at hread'
    cases hread'
    exact hs

/-- **Where a failed load points.** A load whose document can be located fails without naming a file
only where the document's own repository resources are at fault. The file that it names is one that
was asked for, and its span is of the text of one that was, or of the values that were given. -/
theorem place_of_ends (hlocate : c.locate path = .ok (p, repository))
    (hends : Ends c path parameters (.error d, j)) :
    (d.file = none ↔ ∃ depth loaded j',
        (readTemplate (references depth) c path parameters Schema.pipelineRoot).run.run {} =
            some (.ok loaded, j') ∧ repositoryAliases loaded.token = .error d) ∧
      (∀ f, d.file = some f → f ∈ namesAt c.files j.reads) ∧
      ∀ s, d.span = some s → s ∈ spansAt c.files parameters j.reads := by
  obtain ⟨depth, hrun⟩ := hends
  have hpoints := pointsInto_of_run hrun
  refine ⟨⟨fun hfile => ⟨depth, repositoryAliases_of_run hlocate hrun hfile⟩, ?_⟩, hpoints.file,
    hpoints.span⟩
  rintro ⟨-, loaded, -, -, haliases⟩
  have hkeeps := keeps_repositoryAliases (from_univ loaded.token)
  exact (hkeeps.fault d haliases).file

end Run

/-! ### Examples -/

/-- The diagnostic of a load that fails. -/
def fault? (c : Context) (path : String) : Option Diagnostic :=
  match (load c path none).run.run {} with
  | some (.error d, _) => some d
  | _ => none

theorem ends_of_fault? {c : Context} {path : String} (h : fault? c path = some d) :
    ∃ j, Ends c path none (.error d, j) := by
  unfold fault? at h
  split at h
  · next d' j hrun =>
    cases h
    exact ⟨j, ends_of_load hrun⟩
  · cases h

theorem not_mem_spanOf {source : String} {s : Yaml.Span}
    (h : (Yaml.events source).toOption.any (·.all (·.span ≠ s)) = true) : s ∉ SpanOf source := by
  rintro (⟨events, hevents, e, he, rfl⟩ | ⟨d, hd, -⟩)
  · rw [hevents] at h
    exact of_decide_eq_true (List.all_eq_true.mp h e he) rfl
  · rw [hd] at h
    cases h

/-- Files in memory, beside each other. -/
def beside (files : List (String × String)) : Context where
  files := Files.inMemory (files.map fun (path, content) => ⟨none, path, content⟩)
  schema := .standard

/-- A template that takes one value only. -/
def choosy : String := "parameters:\n- name: p\n  type: string\n  values: [good]\nsteps: []\n"

/-- A pipeline that gives the template another value. -/
def otherValue : Context :=
  beside [("ci.yml", "steps:\n- template: t.yml\n  parameters:\n    p: bad\n"), ("t.yml", choosy)]

/-- The template is named, and the span is that of the value, which is not in the template. -/
theorem place_of_ends_otherValue : ∃ d j s, Ends otherValue "ci.yml" none (.error d, j) ∧
    d.file = some "t.yml" ∧ "t.yml" ∈ namesAt otherValue.files j.reads ∧
    d.span = some s ∧ s ∈ spansAt otherValue.files none j.reads ∧ s ∉ SpanOf choosy := by
  have hfault : (fault? otherValue "ci.yml").map (fun d => (d.file, d.span)) =
      some (some "t.yml", some ⟨⟨4, 8⟩, ⟨4, 11⟩⟩) := by decide +kernel
  obtain ⟨d, hd, hplace⟩ := Option.map_eq_some_iff.mp hfault
  obtain ⟨hfile, hspan⟩ := Prod.mk.inj hplace
  obtain ⟨j, hends⟩ := ends_of_fault? hd
  have hlocate : otherValue.locate "ci.yml" = .ok ("ci.yml", none) := by decide +kernel
  obtain ⟨-, hnames, hspans⟩ := place_of_ends hlocate hends
  refine ⟨d, j, _, hends, hfile, hnames _ hfile, hspan, hspans _ hspan, ?_⟩
  exact not_mem_spanOf (by decide +kernel)

/-- A pipeline whose repository resources are not a list. -/
def textForRepositories : Context := beside [("ci.yml", "resources:\n  repositories: x\n")]

/-- The document has been read, and the load fails at a place in it without naming it. -/
theorem textForRepositories_namesNoFile :
    textForRepositories.locate "ci.yml" = .ok ("ci.yml", none) ∧
      textForRepositories.files.read none "ci.yml" = .ok "resources:\n  repositories: x\n" ∧
      ∃ d j, Ends textForRepositories "ci.yml" none (.error d, j) ∧
        d.span = some ⟨⟨2, 17⟩, ⟨2, 18⟩⟩ ∧ d.file = none := by
  have hfault : (fault? textForRepositories "ci.yml").map (fun d => (d.span, d.file)) =
      some (some ⟨⟨2, 17⟩, ⟨2, 18⟩⟩, none) := by decide +kernel
  obtain ⟨d, hd, hplace⟩ := Option.map_eq_some_iff.mp hfault
  obtain ⟨hspan, hfile⟩ := Prod.mk.inj hplace
  obtain ⟨j, hends⟩ := ends_of_fault? hd
  exact ⟨by decide +kernel, by decide +kernel, d, j, hends, hspan, hfile⟩

end Pipeline
end PipelineExpansion
