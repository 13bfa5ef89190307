import PipelineExpansion.Proofs.Pipeline.Depth

/-!
# A limit on files stops references that go round in circles

References may lead back to where they come from, through steps, jobs, stages, variables, extended
pipelines and the default values of parameters. What ends such a load is the number of files: every
template on the way is made known in a table that all of the load shares, and no further file is
made known when the table is full. So the room in the table bounds how deep references lead.

`Bounded N n k` says this of a step, from a table with room for fewer than `n` more files to one with
room for fewer than `k`: it comes to an outcome, at most one file is asked for that is not made
known, and at most one file is one too many. To be bounded is a congruence, in which only one of the
two runs matters. Opening a template is the one step that takes room, and it pays for the deeper
level.

## Main results

* `load_of_maxFiles`: a load under a limit on files ends, after at most one file more.
* `ends_iff_load`: under such a limit the outcome of a load is the one that `load` finds.
-/

namespace PipelineExpansion.Pipeline

open Template

/-- What has become of a journal after a step, where `N` files may be made known. Behind a step
that returns, fewer than `k` more files may be made known. -/
inductive Settles {α : Type} (N k : Nat) (P : α → Prop) (j : Journal) :
    Except Diagnostic α → Journal → Prop where
  /-- Every file that was asked for was made known. -/
  | returned {a : α} {j' : Journal} (h : P a) (hroom : j'.files.length ≤ N)
      (hdepth : N < j'.files.length + k) (hfiles : j.files.length ≤ j'.files.length)
      (hreads : j'.reads.length + j.files.length ≤ j.reads.length + j'.files.length) :
      Settles N k P j (.ok a) j'
  /-- The last file that was asked for may not have been made known. -/
  | failed {d : Diagnostic} {j' : Journal} (hroom : j'.files.length ≤ N)
      (hreads : j'.reads.length + j.files.length ≤ j.reads.length + j'.files.length + 1) :
      Settles N k P j (.error d) j'
  /-- The last file was one too many. -/
  | refused {d : Diagnostic} {j' : Journal} (hkind : d.kind = .limit)
      (hmessage : d.message = "Maximum file count of " ++ toString N ++ " exceeded.")
      (hfull : j'.files.length = N + 1)
      (hreads : j'.reads.length + j.files.length ≤ j.reads.length + j'.files.length) :
      Settles N k P j (.error d) j'

variable {α β : Type} {P : α → Prop} {Q : β → Prop} {N n k m : Nat} {j j₁ j' : Journal}

/-- A step behind one that returned. -/
theorem Settles.after {a : α} {r : Except Diagnostic β} (h : Settles N k P j (.ok a) j₁)
    (h' : Settles N m Q j₁ r j') : Settles N m Q j r j' := by
  cases h with
  | returned _ _ _ hfiles hreads =>
      cases h' with
      | returned hb hroom hdepth hfiles' hreads' =>
          exact .returned hb hroom hdepth (by omega) (by omega)
      | failed hroom hreads' => exact .failed hroom (by omega)
      | refused hkind hmessage hfull hreads' => exact .refused hkind hmessage hfull (by omega)

/-- What comes behind a failure does not matter. -/
theorem Settles.error {d : Diagnostic} (h : Settles N k P j (.error d) j') :
    Settles N m Q j (.error d) j' := by
  cases h with
  | failed hroom hreads => exact .failed hroom hreads
  | refused hkind hmessage hfull hreads => exact .refused hkind hmessage hfull hreads

theorem Settles.withFile {r : Except Diagnostic α} (h : Settles N k P j r j') (name : String) :
    Settles N k P j (r.mapError (·.withFile name)) j' := by
  cases h with
  | returned ha hroom hdepth hfiles hreads => exact .returned ha hroom hdepth hfiles hreads
  | failed hroom hreads => exact .failed hroom hreads
  | refused hkind hmessage hfull hreads => exact .refused hkind hmessage hfull hreads

theorem Settles.wider {r : Except Diagnostic α} (h : Settles N k P j r j') :
    Settles N (k + 1) P j r j' := by
  cases h with
  | returned ha hroom hdepth hfiles hreads => exact .returned ha hroom (by omega) hfiles hreads
  | failed hroom hreads => exact .failed hroom hreads
  | refused hkind hmessage hfull hreads => exact .refused hkind hmessage hfull hreads

/-! ### Steps that keep to the number of files -/

/-- A step comes to an outcome and keeps to the number of files. -/
def Bounded (N n k : Nat) (P : α → Prop) (x : Resolve α) : Prop :=
  ∀ j : Journal, j.files.length ≤ N → N < j.files.length + n →
    ∃ r j', x.run.run j = some (r, j') ∧ Settles N k P j r j'

/-- What leads too deep is bounded where there is no room for it. -/
theorem bounded_unfinished : Bounded N 0 0 P .unfinished := by
  intro j hroom hdepth
  omega

theorem Bounded.bind {x : Resolve α} {f : α → Resolve β} (h : Bounded N n k P x)
    (h' : ∀ a, P a → Bounded N k m Q (f a)) : Bounded N n m Q (x >>= f) := by
  intro j hroom hdepth
  obtain ⟨r, j₁, hx, hsettles⟩ := h j hroom hdepth
  rw [Resolve.run_bind, hx]
  cases r with
  | error d => exact ⟨.error d, j₁, rfl, hsettles.error⟩
  | ok a =>
      have hfirst := hsettles
      obtain ⟨ha, hroom', hdepth', -, -⟩ := hsettles
      obtain ⟨r, j', hf, hrest⟩ := h' a ha j₁ hroom' hdepth'
      exact ⟨r, j', hf, hfirst.after hrest⟩

theorem Bounded.inFile {x : Resolve α} (h : Bounded N n k P x) (name : String) :
    Bounded N n k P (.inFile name x) := by
  intro j hroom hdepth
  obtain ⟨r, j', hx, hsettles⟩ := h j hroom hdepth
  rw [Resolve.run_inFile, hx]
  exact ⟨_, j', rfl, hsettles.withFile name⟩

theorem Bounded.wider {x : Resolve α} (h : Bounded N n k P x) : Bounded N n (k + 1) P x := by
  intro j hroom hdepth
  obtain ⟨r, j', hx, hsettles⟩ := h j hroom hdepth
  exact ⟨r, j', hx, hsettles.wider⟩

/-- A step that asks for no file and makes none known. -/
theorem bounded_of_quiet {x : Resolve α} (hP : Resolve.Yields x P) (hx : ∀ j, ∃ r j',
      x.run.run j = some (r, j') ∧ j'.reads = j.reads ∧ j'.files = j.files) :
    Bounded N n n P x := by
  intro j hroom hdepth
  obtain ⟨r, j', hrun, hreads, hfiles⟩ := hx j
  refine ⟨r, j', hrun, ?_⟩
  rw [← hfiles] at hroom hdepth
  cases r with
  | error d => exact .failed hroom (by rw [hreads, hfiles]; omega)
  | ok a =>
      exact .returned (hP j a j' hrun) hroom hdepth (by rw [hfiles]) (by rw [hreads, hfiles])

/-- **Opening a template takes room**: the file that was asked for is made known, unless it cannot be
read or is too large, or is one too many. -/
theorem bounded_openTemplate {c : Context} {P : Token × Usage → Prop} (hP : ∀ opened, P opened)
    (hN : c.limits.maxFiles = N) (hpos : 0 < N) (path : String) :
    Bounded N (n + 1) n P (openTemplate c path) := by
  refine Bounded.inFile (fun j hroom hdepth => ?_) _
  simp only [Resolve.run_bind, Resolve.run_readFile]
  cases c.files.read c.repository path with
  | error fault => exact ⟨_, _, rfl, .failed hroom (by simp; omega)⟩
  | ok content =>
      simp only [Except.mapError, Resolve.run_charged]
      rcases (c.limits.chargeBytes content.utf8ByteSize).run.run {} with ⟨d | _, usage⟩
      · exact ⟨_, _, rfl, .failed hroom (by simp; omega)⟩
      · simp only [Except.map, Resolve.run_addFile, hN]
        -- The last file that there is room for is the last level that references may lead to.
        by_cases hlast : N < j.files.length + 1
        · rw [if_pos (by simp [hpos, hlast])]
          refine ⟨_, _, rfl, .refused rfl ?_ ?_ ?_⟩
          · rw [Limits.filesExceeded, hN]
            rfl
          · simp only [List.length_append, List.length_singleton]
            omega
          · simp only [List.length_append, List.length_singleton]
            omega
        · rw [if_neg (by simp [hlast])]
          simp only [Resolve.run_ofExcept]
          cases Token.ofText? (some j.files.length) content with
          | error d =>
              refine ⟨_, _, rfl, .failed ?_ ?_⟩ <;>
                simp only [List.length_append, List.length_singleton] <;> omega
          | ok root =>
              refine ⟨_, _, rfl, .returned (hP _) ?_ ?_ ?_ ?_⟩ <;>
                simp only [List.length_append, List.length_singleton] <;> omega

/-- To keep to the number of files is a congruence. -/
def bounded (s : Setting) (hpos : 0 < s.limits.maxFiles) : Congruence s s Set.univ Set.univ where
  Rel n k _ P x _ := Bounded s.limits.maxFiles n k P x
  read h := bounded_of_quiet (Resolve.yields_ofExcept h.returns) fun j =>
    ⟨_, _, Resolve.run_ofExcept _ j, rfl, rfl⟩
  bind := .bind
  inFile _ h := h.inFile _
  note message := bounded_of_quiet (Resolve.yields_true _) fun j =>
    ⟨_, _, Resolve.run_note message j, rfl, rfl⟩
  opening c path := bounded_openTemplate (c := c.under s)
    (fun opened => ⟨from_univ opened.1, trivial⟩) rfl hpos path
  evaluation u _ _ := bounded_of_quiet (fun _ r _ _ => from_univ r.1) fun j =>
    ⟨_, _, Resolve.run_charged _ u j, rfl, rfl⟩
  wider h := h.wider

/-! ### Loads -/

section Load

variable {c : Context} (hpos : 0 < c.limits.maxFiles) (path : String) (parameters : Option Token)

include hpos

/-- A load under a limit on files needs no more depth than files. -/
theorem bounded_loadTo : Bounded c.limits.maxFiles (c.limits.maxFiles + 1) c.limits.maxFiles
    (From Set.univ) (loadTo c.limits.maxFiles c path parameters) :=
  (bounded ⟨c.files, c.limits⟩ hpos).load bounded_unfinished c.limits.maxFiles c path
    (fun t _ => from_univ t) Schema.pipelineRoot

/-- What a load has come to when references lead as deep as there may be files. -/
theorem exists_run_loadTo :
    ∃ r j, Settles c.limits.maxFiles c.limits.maxFiles (From Set.univ) {} r j ∧
      ∀ depth, c.limits.maxFiles ≤ depth →
        (loadTo depth c path parameters).run.run {} = some (r, j) := by
  obtain ⟨r, j, hrun, hsettles⟩ := bounded_loadTo hpos path parameters {} (Nat.zero_le _) (by simp)
  exact ⟨r, j, hsettles, fun depth hdepth => run_loadTo_mono hdepth hrun⟩

theorem maxFiles_le_nesting : c.limits.maxFiles ≤ nesting c.limits := by
  rw [nesting, if_neg (Nat.ne_of_gt hpos)]
  exact Nat.le_succ _

/-- The outcome of a load, where there is a limit on files. -/
theorem ends_iff_load {outcome : Except Diagnostic Pipeline × Journal} :
    Ends c path parameters outcome ↔ (load c path parameters).run.run {} = some outcome := by
  refine ⟨fun hends => ?_, ends_of_load⟩
  obtain ⟨r, j, -, hrun⟩ := exists_run_loadTo hpos path parameters
  have hload := hrun _ (maxFiles_le_nesting hpos)
  rw [hends.unique ⟨_, hload⟩]
  exact hload

end Load

/-- **A limit on files ends every load**, whatever refers to what. The load comes to an outcome that
is not owed to a bound on the depth; at most one file more is asked for than may be made known; and
where one is made known in excess, the load has failed for that. -/
theorem load_of_maxFiles (c : Context) (path : String) (parameters : Option Token)
    (hpos : 0 < c.limits.maxFiles) :
    ∃ r j, (load c path parameters).run.run {} = some (r, j) ∧
      (∀ depth, c.limits.maxFiles ≤ depth →
        (loadTo depth c path parameters).run.run {} = some (r, j)) ∧
      j.reads.length ≤ c.limits.maxFiles + 1 ∧
      (j.files.length ≤ c.limits.maxFiles ∨
        j.files.length = c.limits.maxFiles + 1 ∧
          ∃ d, r = .error d ∧ d.kind = .limit ∧
            d.message = "Maximum file count of " ++ toString c.limits.maxFiles ++ " exceeded.") := by
  obtain ⟨r, j, hsettles, hrun⟩ := exists_run_loadTo hpos path parameters
  refine ⟨r, j, hrun _ (maxFiles_le_nesting hpos), hrun, ?_⟩
  cases hsettles with
  | returned _ hroom _ _ hreads =>
      simp only [List.length_nil] at hreads
      exact ⟨by omega, .inl hroom⟩
  | failed hroom hreads =>
      simp only [List.length_nil] at hreads
      exact ⟨by omega, .inl hroom⟩
  | refused hkind hmessage hfull hreads =>
      simp only [List.length_nil] at hreads
      exact ⟨by omega, .inr ⟨hfull, _, rfl, hkind, hmessage⟩⟩

/-- A pipeline with its own steps for a template, and room for two files. -/
def circle : Context where
  files := Files.inMemory [⟨none, "ci.yml", "steps:\n- template: ci.yml\n"⟩]
  schema := .standard
  limits := { maxFiles := 2 }

theorem load_of_maxFiles_circle :
    ∃ d j, (load circle "ci.yml" none).run.run {} = some (.error d, j) ∧ d.kind = .limit ∧
      j.reads.length = 3 ∧ j.files.length = 3 := by
  have hlengths : ((load circle "ci.yml" none).run.run {}).map
      (fun r => (r.2.reads.length, r.2.files.length)) = some (3, 3) := by decide +kernel
  obtain ⟨r, j, hrun, -, -, hfiles⟩ := load_of_maxFiles circle "ci.yml" none (by decide)
  rw [hrun] at hlengths
  obtain ⟨hreads, hnames⟩ := Prod.mk.inj (Option.some.inj hlengths)
  rcases hfiles with hroom | ⟨-, d, rfl, hkind, -⟩
  · rw [show j.files.length = 3 from hnames] at hroom
    cases Nat.not_succ_le_self 2 hroom
  · exact ⟨d, j, hrun, hkind, hreads, hnames⟩

end PipelineExpansion.Pipeline
