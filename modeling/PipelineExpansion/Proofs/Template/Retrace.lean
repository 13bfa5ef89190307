import PipelineExpansion.Proofs.Template.BareEvaluation
import PipelineExpansion.Proofs.Template.Resolve

/-!
# Taking a step again

What a step returns does not depend on where in a load it is taken, but for two things: tokens carry
the numbers of files, and there may be no room for more files. `Retraces maximum view x y` says so of
two steps, of which the second is the first taken again: if `x` returns, then `y` returns the same from
any journal that has room for as many files, up to a view that disregards numbers.

The relation is kept when steps follow one another, in loops, and when the file of a failure is named.
It holds of all that is done with a file: reading it, making it known, and evaluating it.

## Main results

* `Retraces.bind`: steps that follow retraced ones, and are retraced, are retraced together.
* `retraces_addFile`: a file is made known again where there is room, if under another number.
* `retraces_charged_evaluate`: a template is evaluated again.
-/

namespace PipelineExpansion.Template.Resolve

variable {maximum known more m n : Nat} {α β γ δ ε σ τ : Type} {view : α → γ} {view' : β → δ}
  {j j' j₁ j₂ : Journal}

/-! ### Room for files -/

/-- There is room for more files beside the known ones; a maximum of zero is none. -/
def Room (maximum known more : Nat) : Prop := maximum = 0 ∨ more = 0 ∨ known + more ≤ maximum

theorem room_zero (maximum known : Nat) : Room maximum known 0 := .inr (.inl rfl)

/-- Room is filled by and by. -/
theorem room_add_iff : Room maximum known (m + n) ↔
    Room maximum known m ∧ Room maximum (known + m) n := by
  unfold Room
  omega

/-! ### Steps that are taken again -/

/-- Where the first step returns, the second returns what looks the same, from any journal with room
for the files that the first makes known; it makes as many known. -/
def Retraces (maximum : Nat) (view : α → γ) (x y : Resolve α) : Prop :=
  ∀ j a j₁, x.run.run j = some (.ok a, j₁) →
    ∃ more, j₁.files.length = j.files.length + more ∧ Room maximum j.files.length more ∧
      ∀ j' : Journal, Room maximum j'.files.length more →
        ∃ b j₂, y.run.run j' = some (.ok b, j₂) ∧ view a = view b ∧
          j₂.files.length = j'.files.length + more

/-- A step without effects. -/
theorem retraces_of_files {x y : Resolve α} (h : ∀ j a j₁, x.run.run j = some (.ok a, j₁) →
      j₁.files = j.files ∧ ∀ j' : Journal,
        ∃ b j₂, y.run.run j' = some (.ok b, j₂) ∧ view a = view b ∧ j₂.files = j'.files) :
    Retraces maximum view x y := by
  intro j a j₁ hrun
  obtain ⟨hfiles, hagain⟩ := h j a j₁ hrun
  refine ⟨0, by rw [hfiles, Nat.add_zero], room_zero _ _, fun j' _ => ?_⟩
  obtain ⟨b, j₂, hrun', hview, hfiles'⟩ := hagain j'
  exact ⟨b, j₂, hrun', hview, by rw [hfiles', Nat.add_zero]⟩

theorem retraces_throw (d : Diagnostic) (y : Resolve α) : Retraces maximum view (throw d) y := by
  intro j a j₁ hrun
  cases hrun

theorem retraces_unfinished (y : Resolve α) : Retraces maximum view .unfinished y := by
  intro j a j₁ hrun
  cases hrun

theorem retraces_ofExcept {x y : Except Diagnostic α} (h : view <$> x = view <$> y) :
    Retraces maximum view (ofExcept x) (ofExcept y) := by
  refine retraces_of_files fun j a j₁ hrun => ?_
  obtain ⟨rfl, rfl⟩ := run_ofExcept_eq_ok.mp hrun
  refine ⟨rfl, fun j' => ?_⟩
  cases y with
  | error d => cases h
  | ok b => exact ⟨b, j', run_ofExcept _ j', Except.ok.inj h, rfl⟩

/-- What does not depend on tokens is the same when it is asked again. -/
theorem retraces_ofExcept_self (x : Except Diagnostic α) :
    Retraces maximum id (ofExcept x) (ofExcept x) := retraces_ofExcept rfl

theorem retraces_pure {a b : α} (h : view a = view b) :
    Retraces maximum view (pure a) (pure b) :=
  retraces_ofExcept (x := .ok a) (y := .ok b) (congrArg Except.ok h)

/-- What is asked of bare things is asked again of things that look the same. -/
theorem retraces_of_bare {view : α → α} {strip : σ → σ} {f : σ → Except Diagnostic α}
    (hf : ∀ s, f (strip s) = view <$> f s) {s s' : σ} (h : strip s = strip s') :
    Retraces maximum view (ofExcept (f s)) (ofExcept (f s')) := by
  refine retraces_ofExcept ?_
  rw [← hf, ← hf, h]

theorem retraces_of_same {strip : σ → σ} {f : σ → Except Diagnostic α}
    (hf : ∀ s, f (strip s) = f s) {s s' : σ} (h : strip s = strip s') :
    Retraces maximum id (ofExcept (f s)) (ofExcept (f s')) := by
  refine retraces_ofExcept ?_
  rw [← hf, ← hf s', h]

theorem retraces_expectMapping {t t' : Token} (ht : t.bare = t'.bare) (what : String) :
    Retraces maximum (List.map bareEntry) (ofExcept (t.expectMapping what))
      (ofExcept (t'.expectMapping what)) := by
  refine retraces_ofExcept ?_
  rw [← Token.expectMapping_bare, ← Token.expectMapping_bare, ht]

theorem retraces_expectSequence {t t' : Token} (ht : t.bare = t'.bare) (what : String) :
    Retraces maximum (List.map Token.bare) (ofExcept (t.expectSequence what))
      (ofExcept (t'.expectSequence what)) := by
  refine retraces_ofExcept ?_
  rw [← Token.expectSequence_bare, ← Token.expectSequence_bare, ht]

theorem retraces_expectNonEmpty {t t' : Token} (ht : t.bare = t'.bare) (what : String) :
    Retraces maximum id (ofExcept (t.expectNonEmpty what)) (ofExcept (t'.expectNonEmpty what)) := by
  refine retraces_ofExcept ?_
  rw [← Token.expectNonEmpty_bare, ← t'.expectNonEmpty_bare, ht]

theorem Retraces.bind {x y : Resolve α} {f g : α → Resolve β} (h : Retraces maximum view x y)
    (h' : ∀ a b, view a = view b → Retraces maximum view' (f a) (g b)) :
    Retraces maximum view' (x >>= f) (y >>= g) := by
  intro j c j₂ hrun
  obtain ⟨a, j₁, hx, hf⟩ := run_bind_eq_ok.mp hrun
  obtain ⟨m, hm, hroom, hagain⟩ := h j a j₁ hx
  -- How many files `f a` makes known is found from any `b` that looks like `a`.
  obtain ⟨b₀, _, _, hb₀, -⟩ := hagain j hroom
  obtain ⟨n, hn, hroom', -⟩ := h' a b₀ hb₀ j₁ c j₂ hf
  refine ⟨m + n, by omega, room_add_iff.mpr ⟨hroom, hm ▸ hroom'⟩, fun j' hj' => ?_⟩
  obtain ⟨hfirst, hsecond⟩ := room_add_iff.mp hj'
  obtain ⟨b, j₁', hy, hb, hm'⟩ := hagain j' hfirst
  obtain ⟨n', hn', -, hagain'⟩ := h' a b hb j₁ c j₂ hf
  obtain rfl : n = n' := by omega
  obtain ⟨c', j₂', hg, hc, hlength⟩ := hagain' j₁' (hm' ▸ hsecond)
  exact ⟨c', j₂', run_bind_eq_ok.mpr ⟨b, j₁', hy, hg⟩, hc, by omega⟩

/-- What holds no token is the same when a step is taken again. -/
theorem Retraces.then {x y : Resolve α} {f g : α → Resolve β} (h : Retraces maximum id x y)
    (h' : ∀ a, Retraces maximum view' (f a) (g a)) : Retraces maximum view' (x >>= f) (y >>= g) :=
  h.bind fun a b hab => by
    obtain rfl : a = b := hab
    exact h' a

theorem Retraces.map {x y : Resolve α} {f g : α → β} (h : Retraces maximum view x y)
    (h' : ∀ a b, view a = view b → view' (f a) = view' (g b)) :
    Retraces maximum view' (x >>= fun a => pure (f a)) (y >>= fun b => pure (g b)) :=
  h.bind fun a b hab => retraces_pure (h' a b hab)

/-- What is retraced by what is retraced. -/
theorem Retraces.trans {x y z : Resolve α} (h : Retraces maximum view x y)
    (h' : Retraces maximum view y z) : Retraces maximum view x z := by
  intro j a j₁ hrun
  obtain ⟨more, hmore, hroom, hagain⟩ := h j a j₁ hrun
  refine ⟨more, hmore, hroom, fun j' hj' => ?_⟩
  obtain ⟨b, j₂, hy, hb, hlength⟩ := hagain j' hj'
  obtain ⟨more', hmore', -, hagain'⟩ := h' j' b j₂ hy
  obtain rfl : more = more' := by omega
  obtain ⟨c, j₃, hz, hc, hlength'⟩ := hagain' j' hj'
  exact ⟨c, j₃, hz, hb.trans hc, hlength'⟩

/-- What looks the same does so where less is looked at. -/
theorem Retraces.coarsen {view' : α → δ} {x y : Resolve α} (h : Retraces maximum view x y)
    (h' : ∀ a b, view a = view b → view' a = view' b) : Retraces maximum view' x y := by
  intro j a j₁ hrun
  obtain ⟨more, hmore, hroom, hagain⟩ := h j a j₁ hrun
  refine ⟨more, hmore, hroom, fun j' hj' => ?_⟩
  obtain ⟨b, j₂, hy, hb, hlength⟩ := hagain j' hj'
  exact ⟨b, j₂, hy, h' a b hb, hlength⟩

theorem Retraces.inFile {x y : Resolve α} (h : Retraces maximum view x y) (name name' : String) :
    Retraces maximum view (.inFile name x) (.inFile name' y) := by
  intro j a j₁ hrun
  obtain ⟨more, hmore, hroom, hagain⟩ := h j a j₁ (run_inFile_eq_ok.mp hrun)
  refine ⟨more, hmore, hroom, fun j' hj' => ?_⟩
  obtain ⟨b, j₂, hrun', hview, hlength⟩ := hagain j' hj'
  exact ⟨b, j₂, run_inFile_eq_ok.mpr hrun', hview, hlength⟩

/-- Steps that do not depend on one another may be taken in either order. -/
theorem Retraces.swap {x x' : Resolve α} {y y' : Resolve β} {f f' : α → β → Resolve τ}
    {view'' : τ → ε} (hx : Retraces maximum view x x') (hy : Retraces maximum view' y y')
    (hf : ∀ a a' b b', view a = view a' → view' b = view' b' →
      Retraces maximum view'' (f a b) (f' a' b')) :
    Retraces maximum view'' (x >>= fun a => y >>= fun b => f a b)
      (y' >>= fun b => x' >>= fun a => f' a b) := by
  intro j c j₃ hrun
  obtain ⟨a, j₁, hxa, hrun⟩ := run_bind_eq_ok.mp hrun
  obtain ⟨b, j₂, hyb, hfc⟩ := run_bind_eq_ok.mp hrun
  obtain ⟨m, hm, hroom, hagainx⟩ := hx j a j₁ hxa
  obtain ⟨n, hn, hroom', hagainy⟩ := hy j₁ b j₂ hyb
  obtain ⟨a₀, _, _, ha₀, -⟩ := hagainx j hroom
  obtain ⟨b₀, _, _, hb₀, -⟩ := hagainy j₁ hroom'
  obtain ⟨k, hk, hroom'', -⟩ := hf a a₀ b b₀ ha₀ hb₀ j₂ c j₃ hfc
  refine ⟨m + n + k, by omega, ?_, fun j' hj' => ?_⟩
  · rw [room_add_iff, room_add_iff]
    exact ⟨⟨hroom, hm ▸ hroom'⟩, (by omega : j₂.files.length = j.files.length + (m + n)) ▸ hroom''⟩
  · rw [Nat.add_comm m n, room_add_iff, room_add_iff] at hj'
    obtain ⟨⟨hfirst, hsecond⟩, hthird⟩ := hj'
    obtain ⟨b', j₁', hyb', hb, hn'⟩ := hagainy j' hfirst
    obtain ⟨a', j₂', hxa', ha, hm'⟩ := hagainx j₁' (hn' ▸ hsecond)
    obtain ⟨k', hk', -, hagain⟩ := hf a a' b b' ha hb j₂ c j₃ hfc
    obtain rfl : k = k' := by omega
    have hlength : j₂'.files.length = j'.files.length + (n + m) := by omega
    obtain ⟨c', j₃', hfc', hc, hk''⟩ := hagain j₂' (hlength ▸ hthird)
    refine ⟨c', j₃', ?_, hc, by omega⟩
    exact run_bind_eq_ok.mpr ⟨b', j₁', hyb', run_bind_eq_ok.mpr ⟨a', j₂', hxa', hfc'⟩⟩

/-! ### Loops -/

/-- A loop over things that look the same. -/
theorem Retraces.foldlM {strip : τ → ε} {step step' : α → τ → Resolve α}
    (h : ∀ s s' a a', view s = view s' → strip a = strip a' →
      Retraces maximum view (step s a) (step' s' a')) {items items' : List τ}
    (hitems : items.map strip = items'.map strip) {s s' : α} (hs : view s = view s') :
    Retraces maximum view (items.foldlM step s) (items'.foldlM step' s') := by
  induction items generalizing items' s s' with
  | nil =>
      obtain rfl := List.map_eq_nil_iff.mp hitems.symm
      exact retraces_pure hs
  | cons a rest ih =>
      obtain ⟨a', rest', rfl, ha, hrest⟩ := List.map_eq_cons_iff.mp hitems.symm
      exact (h s s' a a' hs ha.symm).bind fun s s' hs => ih hrest.symm hs

theorem Retraces.forM {strip : τ → ε} {check check' : τ → Resolve PUnit}
    (h : ∀ a a', strip a = strip a' → Retraces maximum id (check a) (check' a'))
    {items items' : List τ} (hitems : items.map strip = items'.map strip) :
    Retraces maximum id (items.forM check) (items'.forM check') := by
  induction items generalizing items' with
  | nil =>
      obtain rfl := List.map_eq_nil_iff.mp hitems.symm
      exact retraces_pure rfl
  | cons a rest ih =>
      obtain ⟨a', rest', rfl, ha, hrest⟩ := List.map_eq_cons_iff.mp hitems.symm
      exact (h a a' ha.symm).then fun _ => ih hrest.symm

/-- What items give is collected again. -/
theorem Retraces.collects {strip : τ → ε} {read read' : τ → Resolve (List α)}
    {all all' : List τ → Resolve (List α)} (hall : Collects read all) (hall' : Collects read' all')
    (h : ∀ t t', strip t = strip t' → Retraces maximum (List.map view) (read t) (read' t'))
    {items items' : List τ} (hitems : items.map strip = items'.map strip) :
    Retraces maximum (List.map view) (all items) (all' items') := by
  induction items generalizing items' with
  | nil =>
      obtain rfl := List.map_eq_nil_iff.mp hitems.symm
      rw [hall.nil, hall'.nil]
      exact retraces_pure rfl
  | cons t rest ih =>
      obtain ⟨t', rest', rfl, ht, hrest⟩ := List.map_eq_cons_iff.mp hitems.symm
      rw [hall.cons, hall'.cons]
      refine (h t t' ht.symm).bind fun own own' hown => ?_
      refine (ih hrest.symm).map fun others others' hothers => ?_
      rw [List.map_append, List.map_append, hown, hothers]

/-! ### Files -/

theorem retraces_note (message : String) : Retraces maximum id (note message) (note message) := by
  refine retraces_of_files fun j a j₁ hrun => ?_
  rw [run_note] at hrun
  cases hrun
  exact ⟨rfl, fun j' => ⟨(), _, run_note message j', rfl, rfl⟩⟩

theorem retraces_readFile (files : Files) (repository : Option String) (path : String) :
    Retraces maximum id (readFile files repository path) (readFile files repository path) := by
  refine retraces_of_files fun j a j₁ hrun => ?_
  rw [run_readFile] at hrun
  obtain ⟨hread, rfl⟩ := Prod.mk.inj (Option.some.inj hrun)
  refine ⟨rfl, fun j' => ⟨a, { j' with reads := j'.reads ++ [(repository, path)] }, ?_, rfl, rfl⟩⟩
  rw [run_readFile, hread]

/-- A file is made known again where there is room; its number may be another. -/
theorem retraces_addFile {l : Limits} (hl : l.maxFiles = maximum) (name name' : String) :
    Retraces maximum (fun _ => ()) (addFile l name) (addFile l name') := by
  have hroom (j : Journal) : ¬ (0 < l.maxFiles && l.maxFiles < j.files.length + 1) = true ↔
      Room maximum j.files.length 1 := by
    simp only [Room, ← hl, Bool.and_eq_true, decide_eq_true_iff]
    omega
  intro j a j₁ hrun
  rw [run_addFile] at hrun
  obtain ⟨hadd, rfl⟩ := Prod.mk.inj (Option.some.inj hrun)
  split at hadd
  · cases hadd
  · next hfits =>
    refine ⟨1, by simp, (hroom j).mp hfits, fun j' hj' => ?_⟩
    refine ⟨j'.files.length, { j' with files := j'.files ++ [name'] }, ?_, rfl, by simp⟩
    rw [run_addFile, if_neg ((hroom j').mpr hj')]

/-! ### Charges -/

theorem retraces_charged {step step' : Charged α} (h : view <$> step = view <$> step') (u : Usage) :
    Retraces maximum (fun r => (view r.1, r.2)) (charged step u) (charged step' u) := by
  have hrun (step : Charged α) : (view <$> step).run.run u =
      (view <$> (step.run.run u).1, (step.run.run u).2) := by
    rw [ExceptT.run_map, StateT.run_map]
    rfl
  have hsame : (view <$> (step.run.run u).1, (step.run.run u).2) =
      (view <$> (step'.run.run u).1, (step'.run.run u).2) := by
    rw [← hrun, ← hrun, h]
  obtain ⟨houtcome, husage⟩ := Prod.mk.inj hsame
  refine retraces_of_files fun j a j₁ hrun => ?_
  rw [run_charged] at hrun
  obtain ⟨hreturn, rfl⟩ := Prod.mk.inj (Option.some.inj hrun)
  refine ⟨rfl, fun j' => ?_⟩
  rw [run_charged]
  revert hreturn houtcome
  cases (step.run.run u).1 <;> cases (step'.run.run u).1 <;> intro houtcome hreturn
  · cases hreturn
  · cases hreturn
  · cases houtcome
  · cases hreturn
    exact ⟨_, j', rfl, Prod.ext (Except.ok.inj houtcome) husage, rfl⟩

theorem retraces_charged_self (step : Charged α) (u : Usage) :
    Retraces maximum id (charged step u) (charged step u) := by
  have h : Retraces maximum (fun r : α × Usage => (id r.1, r.2)) (charged step u) (charged step u) :=
    retraces_charged rfl u
  exact h

/-- **A template is evaluated again**, with the values of bare names. -/
theorem retraces_charged_evaluate (l : Limits) {t t' names names' : Token} (ht : t.bare = t'.bare)
    (hnames : names.bare = names'.bare) (u : Usage) :
    Retraces maximum (fun r => (r.1.bare, r.2)) (charged (evaluate l t names) u)
      (charged (evaluate l t' names') u) := by
  refine retraces_charged ?_ u
  rw [← evaluate_bare, ← evaluate_bare, ht, hnames]

end PipelineExpansion.Template.Resolve
