import PipelineExpansion.Proofs.Pipeline.Depth

/-!
# Wider limits

Limits only ever reject: a load that comes to a pipeline comes to the same one under wider limits,
and the only thing that stricter limits can bring about is a failure with a limit. No limit has a
part in a value, in a decision or in another diagnostic.

## Main results

* `ends_wider`: a load under wider limits, compared with one under stricter limits.
-/

namespace PipelineExpansion.Pipeline

open Template

variable {α : Type} {P : α → Prop} {l l' : Limits} {S : Set Yaml.Span}

/-- A failure with a limit. -/
def ByLimit (failure : Option Diagnostic) : Prop := ∃ d, failure = some d ∧ d.kind = .limit

theorem agree_charged {x y : Charged α} (h : Curbed S P x y) (u : Usage) :
    Agree ByLimit (fun _ => True) (Resolve.charged x u) (Resolve.charged y u) := by
  refine ⟨Resolve.yields_true _, fun j => ?_⟩
  rw [Resolve.run_charged, Resolve.run_charged]
  rcases hx : x.run.run u with ⟨d | a, u'⟩
  · rcases (h.fails u d u' hx).2 with hkind | hy
    · exact .inr (.refused ⟨d, rfl, hkind⟩)
    · rw [hy]
      exact .inl rfl
  · rw [(h.returns u a u' hx).2]
    exact .inl rfl

/-- One file more is made known alike, or is one too many. -/
theorem agree_addFile (h : l.Within l') (name : String) :
    Agree ByLimit (fun _ => True) (Resolve.addFile l name) (Resolve.addFile l' name) := by
  refine ⟨Resolve.yields_true _, fun j => ?_⟩
  rw [Resolve.run_addFile, Resolve.run_addFile]
  split
  · exact .inr (.refused ⟨_, rfl, rfl⟩)
  · next hroom =>
    have hfiles := h.files
    rw [if_neg]
    · exact .inl rfl
    · simp only [Bool.and_eq_true, decide_eq_true_eq] at hroom ⊢
      omega

theorem byLimit_withFile (d : Diagnostic) (name : String) (h : ByLimit (some d)) :
    ByLimit (some (d.withFile name)) := by
  obtain ⟨_, ⟨⟩, hkind⟩ := h
  exact ⟨_, rfl, hkind⟩

/-- A template is opened alike, but for the limits on its bytes and on the number of files. -/
theorem agree_openTemplate (h : l.Within l') (files : Files) (c : Context) (path : String) :
    Agree ByLimit (fun _ => True) (openTemplate (c.under ⟨files, l⟩) path)
      (openTemplate (c.under ⟨files, l'⟩) path) := by
  refine Agree.inFile byLimit_withFile ?_
  refine Agree.bind (.refl (Resolve.yields_true _)) fun content _ => ?_
  refine Agree.bind (agree_charged (curbed_chargeBytes (S := Set.univ) h _) _) fun charge _ => ?_
  refine Agree.bind (agree_addFile h _) fun file _ => ?_
  exact .refl (Resolve.yields_true _)

/-- The same load under wider limits. -/
def wider (h : l.Within l') (files : Files) : Congruence ⟨files, l⟩ ⟨files, l'⟩ Set.univ Set.univ :=
  agreement byLimit_withFile (agree_openTemplate h files) fun t names =>
    agree_charged (curbed_evaluate h (from_univ t) (from_univ names))

/-- A load under wider limits does the same, to any depth, unless it fails with a limit under the
stricter ones. -/
theorem run_loadTo_wider (h : l.Within l') (depth : Nat) (c : Context) (path : String)
    (parameters : Option Token) (j : Journal) :
    (loadTo depth { c with limits := l } path parameters).run.run j =
        (loadTo depth { c with limits := l' } path parameters).run.run j ∨
      ∃ d j', (loadTo depth { c with limits := l } path parameters).run.run j = some (.error d, j') ∧
        d.kind = .limit := by
  have hnone {α : Type} {P : α → Prop} : Agree ByLimit P .unfinished .unfinished :=
    .refl (Resolve.yields_unfinished P)
  have hagree : Agree ByLimit (From Set.univ) (loadTo depth { c with limits := l } path parameters)
      (loadTo depth { c with limits := l' } path parameters) :=
    Congruence.load (wider h c.files) hnone depth c path (fun t _ => from_univ t) Schema.pipelineRoot
  refine (hagree.run j).imp_right fun hfails => ?_
  generalize (loadTo depth { c with limits := l } path parameters).run.run j = r at hfails ⊢
  cases hfails with
  | unfinished hlimit =>
      obtain ⟨_, ⟨⟩, -⟩ := hlimit
  | refused hlimit =>
      obtain ⟨_, ⟨⟩, hkind⟩ := hlimit
      exact ⟨_, _, rfl, hkind⟩

/-- **Limits only ever reject.** A load that comes to a pipeline comes to the same one under wider
limits. A load that comes to an outcome under wider limits comes to one under stricter limits too,
and it is the same outcome or a failure with a limit. -/
theorem ends_wider (h : l.Within l') (c : Context) (path : String) (parameters : Option Token) :
    (∀ p j, Ends { c with limits := l } path parameters (.ok p, j) →
        Ends { c with limits := l' } path parameters (.ok p, j)) ∧
      ∀ outcome, Ends { c with limits := l' } path parameters outcome →
        (∃ outcome', Ends { c with limits := l } path parameters outcome') ∧
          ∀ outcome', Ends { c with limits := l } path parameters outcome' →
            outcome' = outcome ∨ ∃ d j, outcome' = (.error d, j) ∧ d.kind = .limit := by
  refine ⟨fun p j hends => ?_, fun outcome hends => ?_⟩
  · obtain ⟨depth, hrun⟩ := hends
    rcases run_loadTo_wider h depth c path parameters {} with heq | ⟨d, j', hfails, -⟩
    · exact ⟨depth, heq.symm.trans hrun⟩
    · rw [hrun] at hfails
      cases hfails
  · obtain ⟨depth, hrun⟩ := hends
    rcases run_loadTo_wider h depth c path parameters {} with heq | ⟨d, j', hfails, hkind⟩
    · have hsame : Ends { c with limits := l } path parameters outcome := ⟨depth, heq.trans hrun⟩
      exact ⟨⟨outcome, hsame⟩, fun outcome' hends' => .inl (hends'.unique hsame)⟩
    · have hlimit : Ends { c with limits := l } path parameters (.error d, j') := ⟨depth, hfails⟩
      exact ⟨⟨_, hlimit⟩, fun outcome' hends' => .inr ⟨d, j', hends'.unique hlimit, hkind⟩⟩

/-- A pipeline of one step. -/
def oneStep : Context where
  files := Files.inMemory [⟨none, "ci.yml", "steps:\n- script: make\n"⟩]
  schema := .standard

/-- What `oneStep` takes, and nothing to spare. -/
def sixNodes : Limits where
  maxDepth := 4
  maxEvents := 6
  maxBytes := 23
  maxFiles := 1

theorem ends_wider_oneStep :
    ∃ p j, Ends { oneStep with limits := sixNodes } "ci.yml" none (.ok p, j) ∧
      Ends { oneStep with limits := {} } "ci.yml" none (.ok p, j) ∧
      ∀ outcome,
        Ends { oneStep with limits := { sixNodes with maxEvents := 5 } } "ci.yml" none outcome →
          ∃ d j, outcome = (.error d, j) ∧ d.kind = .limit := by
  have hloads : ((load { oneStep with limits := sixNodes } "ci.yml" none).run.run {}).map
      (·.1.isOk) = some true := by decide +kernel
  have hfails : ((load { oneStep with limits := { sixNodes with maxEvents := 5 } } "ci.yml"
      none).run.run {}).map (·.1.isOk) = some false := by decide +kernel
  obtain ⟨⟨r, j⟩, hrun, hok⟩ := Option.map_eq_some_iff.mp hloads
  obtain ⟨⟨r', j'⟩, hrun', hnot⟩ := Option.map_eq_some_iff.mp hfails
  cases r with
  | error d => cases hok
  | ok p =>
      have hends : Ends { oneStep with limits := sixNodes } "ci.yml" none (.ok p, j) :=
        ends_of_load hrun
      have hstandard : sixNodes.Within {} := ⟨by decide, by decide, by decide, by decide⟩
      have hfewer : { sixNodes with maxEvents := 5 }.Within sixNodes :=
        ⟨by decide, by decide, by decide, by decide⟩
      refine ⟨p, j, hends, (ends_wider hstandard oneStep "ci.yml" none).1 p j hends, ?_⟩
      intro outcome hends'
      cases hends'.unique (ends_of_load hrun')
      refine (((ends_wider hfewer oneStep "ci.yml" none).2 _ hends).2 _ hends').resolve_left ?_
      rintro ⟨⟩
      cases hnot

end PipelineExpansion.Pipeline
