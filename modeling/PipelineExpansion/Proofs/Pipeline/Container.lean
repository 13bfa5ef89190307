import PipelineExpansion.Pipeline.Container
import PipelineExpansion.Proofs.Pipeline.Entry

/-!
# Containers and pools are read back from their tokens

Mounts and pools are read back whatever they are. Of a container that has been read it is known that
its alias says something and that its environment is in order (`Container.Sound`), and such a
container is read back.
-/

namespace PipelineExpansion.Pipeline

open Template (Entry Token)

variable {t : Token}

/-! ### Mounts and pools -/

theorem Mounts.ofToken?_toToken (m : Mounts) : Mounts.ofToken? m.toToken = .ok m := by
  suffices Leads Mounts.read {} _ m from this
  simp only [List.append_assoc]
  refine Leads.append (leads_field (fun a o => { a with work := o }) rfl (fun _ _ => rfl) rfl) ?_
  refine Leads.append
    (leads_field (fun a o => { a with externals := o }) rfl (fun _ _ => rfl) rfl) ?_
  refine Leads.append (leads_field (fun a o => { a with tools := o }) rfl (fun _ _ => rfl) rfl) ?_
  exact leads_field (fun a o => { a with tasks := o }) rfl (fun _ _ => rfl) rfl

theorem Pool.ofToken?_toToken (p : Pool) : Pool.ofToken? p.toToken = .ok p := by
  suffices Leads Pool.read {} _ p from this
  simp only [List.append_assoc]
  refine Leads.append (leads_field (fun a o => { a with name := o }) rfl (fun _ _ => rfl) rfl) ?_
  refine Leads.append (leads_field (fun a o => { a with vmImage := o }) rfl (fun _ _ => rfl) rfl) ?_
  exact leads_field (fun a o => { a with demands := o }) rfl
    (fun demands _ => bind_of_eq_pure (expectTexts_textsToken demands _) _) rfl

/-! ### Containers -/

/-- What holds of every container that has been read. -/
structure Container.Sound (c : Container) : Prop where
  aliasName : ∀ name ∈ c.aliasName, name ≠ ""
  env : ∀ env ∈ c.env, env.Canonical

theorem Container.sound_image (image : Option String) : ({ image } : Container).Sound :=
  ⟨fun _ h => (nomatch h), fun _ h => (nomatch h)⟩

theorem Container.ensures_read {c : Container} (h : c.Sound) (e : Entry) :
    Ensures (c.read e) Sound := by
  obtain ⟨key, value⟩ := e
  unfold Container.read
  simp only
  split
  case h_1 =>
    refine (value.ensures_expectNonEmpty "container").bind fun name hname => ?_
    exact ensures_pure { h with aliasName := by rintro _ ⟨⟩; exact hname }
  case h_4 =>
    refine ensures_bind_of_forall fun entries => ?_
    have henv : (Dictionary.ofEntries entries).Canonical :=
      Dictionary.canonical_foldl_put entries .nil
    exact ensures_pure { h with env := by rintro _ ⟨⟩; exact henv }
  case h_10 => exact ensures_ok h
  all_goals
    refine ensures_bind_of_forall fun _ => ?_
    exact ensures_pure { h with }

/-- **Containers that have been read are sound.** -/
theorem Container.ensures_ofToken? (t : Token) : Ensures (Container.ofToken? t) Sound := by
  unfold Container.ofToken?
  split
  · refine ensures_bind_of_forall fun _ => ?_
    exact ensures_pure (sound_image _)
  · refine ensures_bind_of_forall fun entries => ?_
    exact ensures_foldlM (fun _ e h => ensures_read h e) (sound_image none) entries

theorem Container.read_env (c : Container) {env : Dictionary String} (h : env.Canonical) :
    c.read (madeEntry ("env", pairsToken env)) = .ok { c with env := some env } := by
  refine (bind_of_eq_pure (expectTextMap_pairsToken env _) _).trans ?_
  rw [Dictionary.ofEntries_eq_of_perm h (.refl _)]
  rfl

/-- **A sound container is read back from its token.** -/
theorem Container.ofToken?_toToken {c : Container} (h : c.Sound) :
    Container.ofToken? c.toToken = .ok c := by
  suffices Leads Container.read {} _ c from this
  simp only [List.append_assoc]
  refine Leads.append (leads_field (fun a o => { a with aliasName := o }) rfl
    (fun name hname => bind_of_eq_pure
      (Token.expectNonEmpty_ofText _ (h.aliasName name hname)) _) rfl) ?_
  refine Leads.append (leads_field (fun a o => { a with image := o }) rfl (fun _ _ => rfl) rfl) ?_
  refine Leads.append
    (leads_field (fun a o => { a with endpoint := o }) rfl (fun _ _ => rfl) rfl) ?_
  refine Leads.append
    (leads_field (fun a o => { a with mapDockerSocket := o }) rfl (fun _ _ => rfl) rfl) ?_
  refine Leads.append (leads_field (fun a o => { a with options := o }) rfl (fun _ _ => rfl) rfl) ?_
  refine Leads.append (leads_field (fun a o => { a with env := o }) rfl
    (fun env henv => read_env _ (h.env env henv)) rfl) ?_
  refine Leads.append (leads_field (fun a o => { a with ports := o }) rfl
    (fun ports _ => bind_of_eq_pure (expectTexts_textsToken ports _) _) rfl) ?_
  refine Leads.append (leads_field (fun a o => { a with volumes := o }) rfl
    (fun volumes _ => bind_of_eq_pure (expectTexts_textsToken volumes _) _) rfl) ?_
  exact leads_field (fun a o => { a with mountReadOnly := o }) rfl
    (fun mounts _ => bind_of_eq_pure mounts.ofToken?_toToken _) rfl

end PipelineExpansion.Pipeline
