import PipelineExpansion.Proofs.Expression.Inherited
import PipelineExpansion.Proofs.Template.DistinctNames

/-!
# Names stay distinct at every depth

The mappings of an evaluated document come from two sides. Evaluation puts its own ones together
entry by entry, with names that are new; others arrive whole in the values of expressions. Where no
mapping in the named values repeats a name, at whatever depth, no mapping in the result does.

The proof follows the mutual recursion of `evalToken`, `evalItems`, `evalBody` and `evalEntries`.
Nothing is asked of the template: what it holds is never handed on as it stands, scalars apart.

## Main results

* `inherited_distinct`: what an expression evaluates to repeats no name that the named values do not
  repeat.
* `distinct_of_evaluate`: an evaluated token has distinct names in all of its mappings.
-/

namespace PipelineExpansion.Template

variable {l : Limits} {names t : Token} {key : Key}

/-! ### Mappings in tokens -/

/-- A token has a mapping with these entries: the token itself, or one in an item or a value of it. -/
inductive Token.HasMapping : Token → List Entry → Prop where
  | own {o : Origin} {entries : List Entry} : (Token.mapping o entries).HasMapping entries
  | item {o : Origin} {items : List Token} {t : Token} {entries : List Entry} (hmem : t ∈ items)
      (h : t.HasMapping entries) : (Token.sequence o items).HasMapping entries
  | value {o : Origin} {around entries : List Entry} {e : Entry} (hmem : e ∈ around)
      (h : e.2.HasMapping entries) : (Token.mapping o around).HasMapping entries

section HasMapping

variable {P : List Entry → Prop} {o : Origin}

theorem Token.forall_hasMapping_sequence {items : List Token} :
    (∀ entries, (Token.sequence o items).HasMapping entries → P entries) ↔
      ∀ t ∈ items, ∀ entries, t.HasMapping entries → P entries := by
  constructor
  · exact fun h t ht entries hentries => h entries (.item ht hentries)
  · rintro h entries (_ | ⟨hmem, hentries⟩)
    exact h _ hmem entries hentries

theorem Token.forall_hasMapping_mapping {entries : List Entry} :
    (∀ more, (Token.mapping o entries).HasMapping more → P more) ↔
      P entries ∧ ∀ e ∈ entries, ∀ more, e.2.HasMapping more → P more := by
  constructor
  · exact fun h => ⟨h entries .own, fun e he more hmore => h more (.value he hmore)⟩
  · rintro ⟨hown, hvalues⟩ more (_ | _ | ⟨hmem, hmore⟩)
    · exact hown
    · exact hvalues _ hmem more hmore

theorem Token.not_hasMapping_of_isScalar (h : t.isScalar = true) (entries : List Entry) :
    ¬ t.HasMapping entries := by
  rintro (_ | _ | _) <;> cases h

end HasMapping

/-- No mapping in a token, at whatever depth, has two entries of one name. -/
def Token.Distinct (t : Token) : Prop := ∀ entries, t.HasMapping entries → DistinctNames entries

theorem Token.distinct_sequence {o : Origin} {items : List Token} :
    (Token.sequence o items).Distinct ↔ ∀ t ∈ items, t.Distinct :=
  Token.forall_hasMapping_sequence

theorem Token.distinct_mapping {o : Origin} {entries : List Entry} :
    (Token.mapping o entries).Distinct ↔ DistinctNames entries ∧ ∀ e ∈ entries, e.2.Distinct :=
  Token.forall_hasMapping_mapping

theorem Token.distinct_of_isScalar (h : t.isScalar = true) : t.Distinct :=
  fun entries hentries => absurd hentries (Token.not_hasMapping_of_isScalar h entries)

/-- Where a token comes from does not matter. -/
theorem Token.Distinct.withOrigin (h : t.Distinct) (o : Origin) : (t.withOrigin o).Distinct := by
  cases t with
  | sequence => exact distinct_sequence.mpr (distinct_sequence.mp h)
  | mapping => exact distinct_mapping.mpr (distinct_mapping.mp h)
  | _ => exact distinct_of_isScalar rfl

theorem Token.Distinct.locatedAt (h : t.Distinct) (other : Token) : (t.locatedAt other).Distinct := by
  rw [Token.locatedAt]
  split
  · exact h.withOrigin _
  · exact h

/-! ### Expressions -/

theorem inherited_distinct : Expression.Inherited Token.Distinct where
  made _ hscalar _ := Token.distinct_of_isScalar hscalar
  gathered _ hitems := Token.distinct_sequence.mpr hitems
  item h := Token.distinct_sequence.mp h
  entry h := (Token.distinct_mapping.mp h).2

theorem ensures_evalExpression (hnames : names.Distinct) (span : Option Yaml.Span)
    (source : String) : Ensures (evalExpression names span source) Token.Distinct :=
  fun value hvalue =>
    inherited_distinct.ensures_evaluate hnames source value (mapError_eq_ok.mp hvalue)

theorem distinct_evalText (hnames : names.Distinct) (o : Origin) (s : String) :
    Affords (evalText l names o s) Token.Distinct := by
  rw [evalText]
  split
  · exact affords_pure (Token.distinct_of_isScalar rfl)
  · split
    · next source _ =>
      refine (affords_lift (ensures_evalExpression hnames o.span source)).bind fun value hvalue => ?_
      have hlocated := hvalue.locatedAt (.text o s)
      generalize value.locatedAt (.text o s) = located at hlocated ⊢
      cases located with
      | text => exact affords_bind_of_forall fun _ => affords_pure hlocated
      | _ => exact affords_pure hlocated
    · refine affords_bind_of_forall fun segments => affords_bind_of_forall fun texts => ?_
      exact affords_bind_of_forall fun _ => affords_pure (Token.distinct_of_isScalar rfl)

/-! ### Branches, loops and collections -/

/-- The collection that a loop goes through has distinct names. -/
def Branch.Distinct : Branch → Prop
  | .loop _ collection => collection.Distinct
  | _ => True

theorem ensures_branchOn (names : Token) (key : Key) (condition : String) :
    Ensures (branchOn names key condition) Branch.Distinct := by
  refine ensures_bind_of_forall fun value => ?_
  split
  · exact ensures_pure trivial
  · exact ensures_pure trivial

theorem ensures_selectBranch (hnames : names.Distinct) (key : Key) (directive : Directive)
    (chain : Chain) : Ensures (selectBranch names key directive chain) Branch.Distinct := by
  unfold selectBranch
  split
  · exact ensures_branchOn names key _
  · exact ensures_error _ _
  · exact ensures_ok trivial
  · exact ensures_branchOn names key _
  · exact ensures_error _ _
  · exact ensures_ok trivial
  · exact ensures_ok trivial
  · exact (ensures_evalExpression hnames _ _).bind fun collection hcollection =>
      ensures_pure hcollection
  · exact ensures_ok trivial

theorem ensures_elements {collection : Token} (h : collection.Distinct) (key : Key) :
    Ensures (elements key collection) fun items => ∀ t ∈ items, t.Distinct := by
  unfold elements
  split
  · exact ensures_ok (List.forall_mem_nil _)
  · exact ensures_ok (Token.distinct_sequence.mp h)
  · next o entries =>
    refine ensures_ok (List.forall_mem_map.mpr fun e he => Token.distinct_mapping.mpr ⟨?_, ?_⟩)
    · exact (by decide : ["key", "value"].Nodup)
    · have hkey : (Token.text e.1.origin e.1.name).Distinct := Token.distinct_of_isScalar rfl
      simpa using ⟨hkey, (Token.distinct_mapping.mp h).2 e he⟩
  · exact ensures_error _ _

/-- A name is bound anew behind the other ones, and what had that name before is left out. -/
theorem distinct_bindName {value : Token} (hnames : names.Distinct) (hvalue : value.Distinct)
    (name : String) : (bindName names name value).Distinct := by
  obtain ⟨hdistinct, hvalues⟩ : DistinctNames (names.entries?.getD []) ∧
      ∀ e ∈ names.entries?.getD [], e.2.Distinct := by
    cases names with
    | mapping o entries => exact Token.distinct_mapping.mp hnames
    | _ => exact ⟨List.nodup_nil, List.forall_mem_nil _⟩
  refine Token.distinct_mapping.mpr ⟨?_, List.forall_mem_append.mpr ⟨fun e he => ?_, ?_⟩⟩
  · refine DistinctNames.append_singleton ?_ fun e he hsame => ?_
    · exact hdistinct.sublist (List.filter_sublist.map _)
    · have hother := (List.mem_filter.mp he).2
      simp [hsame, Text.sameName] at hother
  · exact hvalues e (List.mem_filter.mp he).1
  · exact List.forall_mem_singleton.mpr hvalue

theorem ensures_rounds {collection : Token} (hnames : names.Distinct) (h : collection.Distinct)
    (key : Key) (name : String) :
    Ensures (rounds names key name collection) fun rounds => ∀ names ∈ rounds, names.Distinct :=
  (ensures_elements h key).map fun _ hitems =>
    List.forall_mem_map.mpr fun item hitem => distinct_bindName hnames (hitems item hitem) name

theorem ensures_addEntry_values {entries : List Entry} {e : Entry}
    (h : ∀ e ∈ entries, e.2.Distinct) (he : e.2.Distinct) :
    Ensures (addEntry entries e) fun es => ∀ e ∈ es, e.2.Distinct := by
  rw [addEntry]
  split
  · exact ensures_error _ _
  · exact ensures_ok (List.forall_mem_append.mpr ⟨h, List.forall_mem_singleton.mpr he⟩)

theorem ensures_mergeBody_values {entries : List Entry} {body : Token}
    (h : ∀ e ∈ entries, e.2.Distinct) (hbody : body.Distinct) (key : Key) :
    Ensures (mergeBody key entries body) fun es => ∀ e ∈ es, e.2.Distinct := by
  unfold mergeBody
  split
  · exact ensures_ok h
  · next o more =>
    have hmore := (Token.distinct_mapping.mp hbody).2
    exact ensures_foldlM_of_mem (fun e he es hes => ensures_addEntry_values hes (hmore e he)) h
  · exact ensures_error _ _

theorem distinct_spliced {item value : Token} (h : value.Distinct) :
    ∀ t ∈ spliced item value, t.Distinct := by
  unfold spliced
  split
  · exact Token.distinct_sequence.mp h
  · exact List.forall_mem_singleton.mpr h

theorem distinct_bodyItems {body : Token} (h : body.Distinct) :
    ∀ t ∈ bodyItems body, t.Distinct := by
  cases body with
  | sequence o items => exact Token.distinct_sequence.mp h
  | null o => exact List.forall_mem_nil _
  | _ => exact List.forall_mem_singleton.mpr h

/-! ### The walk -/

mutual

theorem distinct_evalToken (l : Limits) {names : Token} (hnames : names.Distinct) (t : Token)
    (depth : Nat) : Affords (evalToken l names depth t) Token.Distinct := by
  match t with
  | .text o s =>
      rw [evalToken]
      exact affords_bind_of_forall fun _ => distinct_evalText hnames o s
  | .sequence o items =>
      rw [evalToken]
      refine affords_bind_of_forall fun _ => ?_
      exact (distinct_evalItems l hnames items depth none).map fun items hitems =>
        Token.distinct_sequence.mpr hitems
  | .mapping o entries =>
      rw [evalToken]
      have hnone : DistinctNames [] := List.nodup_nil
      have hvalues := distinct_evalEntries l hnames entries (List.forall_mem_nil _) depth none
      refine affords_bind_of_forall fun _ => ?_
      refine ((affords_evalEntries depth entries none hnone).and hvalues).map ?_
      exact fun entries hentries => Token.distinct_mapping.mpr hentries
  | .null o | .boolean o b | .number o n =>
      unfold evalToken
      exact affords_bind_of_forall fun _ => affords_pure (Token.distinct_of_isScalar rfl)
termination_by sizeOf t

theorem distinct_evalItems (l : Limits) {names : Token} (hnames : names.Distinct)
    (items : List Token) (depth : Nat) (chain : Chain) :
    Affords (evalItems l names depth chain items) fun ts => ∀ t ∈ ts, t.Distinct := by
  match items with
  | [] =>
      rw [evalItems]
      exact affords_pure (List.forall_mem_nil _)
  | item :: rest =>
      rw [evalItems]
      split
      · refine (distinct_evalToken l hnames item (depth + 1)).bind fun value hvalue => ?_
        exact (distinct_evalItems l hnames rest depth none).map fun more hmore =>
          List.forall_mem_append.mpr ⟨distinct_spliced hvalue, hmore⟩
      · next key directive _ =>
        have hselect := ensures_selectBranch hnames key directive chain
        refine (affords_lift hselect).bind fun branch hbranch => ?_
        split
        · next next =>
          refine (distinct_evalBody l hnames item depth).bind fun own hown => ?_
          exact (distinct_evalItems l hnames rest depth next).map fun more hmore =>
            List.forall_mem_append.mpr ⟨hown, hmore⟩
        · next next => exact distinct_evalItems l hnames rest depth next
        · next name collection =>
          refine (affords_lift (ensures_rounds hnames hbranch key name)).bind fun rounds hrounds => ?_
          have hbodies := affords_mapM fun names (hmem : names ∈ rounds) =>
            distinct_evalBody l (hrounds names hmem) item depth
          refine hbodies.bind fun own hown => ?_
          refine (distinct_evalItems l hnames rest depth none).map fun more hmore => ?_
          refine List.forall_mem_append.mpr ⟨fun t ht => ?_, hmore⟩
          obtain ⟨ts, hts, htmem⟩ := List.mem_flatten.mp ht
          exact hown ts hts t htmem
termination_by sizeOf items

theorem distinct_evalBody (l : Limits) {names : Token} (hnames : names.Distinct) (item : Token)
    (depth : Nat) :
    Affords (evalBody l names depth item) fun ts => ∀ t ∈ ts, t.Distinct := by
  match item with
  | .mapping _ [(_, .sequence o items)] =>
      rw [evalBody]
      exact distinct_evalItems l hnames items (depth + 1) none
  | .mapping _ [(_, .mapping ..)] | .mapping _ [(_, .text ..)] | .mapping _ [(_, .number ..)]
  | .mapping _ [(_, .boolean ..)] =>
      unfold evalBody
      refine (distinct_evalToken l hnames _ (depth + 1)).map fun value hvalue => ?_
      exact distinct_bodyItems hvalue
  | .mapping _ [(_, .null _)] | .mapping _ [] | .mapping _ (_ :: _ :: _) | .sequence ..
  | .null _ | .boolean .. | .number .. | .text .. =>
      unfold evalBody
      exact affords_pure (List.forall_mem_nil _)
termination_by sizeOf item

/-- The values of the entries; `affords_evalEntries` says of the names that they are distinct. -/
theorem distinct_evalEntries (l : Limits) {names : Token} (hnames : names.Distinct)
    (entries : List Entry) {done : List Entry} (hdone : ∀ e ∈ done, e.2.Distinct) (depth : Nat)
    (chain : Chain) :
    Affords (evalEntries l names depth chain done entries) fun es => ∀ e ∈ es, e.2.Distinct := by
  match entries with
  | [] =>
      rw [evalEntries]
      exact affords_pure hdone
  | (key, value) :: rest =>
      rw [evalEntries]
      split
      · refine affords_bind_of_forall fun key => ?_
        refine (distinct_evalToken l hnames value (depth + 1)).bind fun value hvalue => ?_
        refine (affords_lift (ensures_addEntry_values hdone hvalue)).bind fun done hdone => ?_
        exact distinct_evalEntries l hnames rest hdone depth none
      · next directive _ =>
        have hselect := ensures_selectBranch hnames key directive chain
        refine (affords_lift hselect).bind fun branch hbranch => ?_
        split
        · next next =>
          refine (distinct_evalToken l hnames value (depth + 1)).bind fun body hbody => ?_
          refine (affords_lift (ensures_mergeBody_values hdone hbody key)).bind fun done hdone => ?_
          exact distinct_evalEntries l hnames rest hdone depth next
        · next next => exact distinct_evalEntries l hnames rest hdone depth next
        · next name collection =>
          refine (affords_lift (ensures_rounds hnames hbranch key name)).bind fun rounds hrounds => ?_
          have hbodies := affords_foldlM (fun names (hmem : names ∈ rounds) done hdone =>
            (distinct_evalToken l (hrounds names hmem) value (depth + 1)).bind
              fun body hbody => affords_lift (ensures_mergeBody_values hdone hbody key)) hdone
          exact hbodies.bind fun done hdone => distinct_evalEntries l hnames rest hdone depth none
termination_by sizeOf entries

end

/-- **Evaluation keeps names distinct at every depth**, whatever the template does with directives,
computed names and spliced collections: where no mapping in the named values repeats a name, none in
the result does. -/
theorem distinct_of_evaluate {t' : Token} {u u' : Usage} (hnames : names.Distinct)
    (hrun : (evaluate l t names).run.run u = (.ok t', u')) : t'.Distinct :=
  distinct_evalToken l hnames t 1 u t' u' hrun

/-- Parameters with a mapping that is inserted and one that a loop goes through. -/
def loopedParameters : Token :=
  .ofPairs [("parameters", .ofPairs
    [("common", .ofPairs [("a", .ofNull)]),
      ("more", .ofPairs [("b", .ofNull), ("c", .ofItems [.ofPairs [("d", .ofNull)]])])])]

/-- A mapping that inserts the one and has an entry with a computed name for each entry of the
other. -/
def loopedTemplate : Token :=
  .ofPairs
    [("$\x7b\x7b insert \x7d\x7d", .ofText "$\x7b\x7b parameters.common \x7d\x7d"),
      ("$\x7b\x7b each p in parameters.more \x7d\x7d",
        .ofPairs [("$\x7b\x7b p.key \x7d\x7d", .ofText "$\x7b\x7b p.value \x7d\x7d")])]

theorem distinct_of_evaluate_looped :
    loopedParameters.Distinct ∧
      ∃ t' u', (evaluate {} loopedTemplate loopedParameters).run.run {} = (.ok t', u') ∧
        t'.entries?.map (·.map (·.1.name)) = some ["a", "b", "c"] ∧ t'.Distinct := by
  have hnull : Token.ofNull.Distinct := Token.distinct_of_isScalar rfl
  have hparameters : loopedParameters.Distinct := by
    simp [loopedParameters, Token.ofPairs, Token.ofItems, Token.distinct_mapping,
      Token.distinct_sequence, DistinctNames, hnull]
  have hnames : (((evaluate {} loopedTemplate loopedParameters).run.run {}).1.toOption.bind
      Token.entries?).map (·.map (·.1.name)) = some ["a", "b", "c"] := by decide +kernel
  rcases hrun : (evaluate {} loopedTemplate loopedParameters).run.run {} with ⟨_ | t', u'⟩
  · rw [hrun] at hnames
    cases hnames
  · rw [hrun] at hnames
    exact ⟨hparameters, t', u', rfl, hnames, distinct_of_evaluate hparameters hrun⟩

end PipelineExpansion.Template
