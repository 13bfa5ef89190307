import Mathlib.Data.Set.Basic
import PipelineExpansion.Proofs.Outcome
import PipelineExpansion.Proofs.Template.Token
import PipelineExpansion.Template.Schema
import PipelineExpansion.Template.Token.Load

/-!
# Where tokens and faults come from

Every token, every key and every fault may carry a span. `t.From S` says that all spans in a token
are in a set; `Keeps S x P` says of a step without effects that its fault, if it fails, carries no
other span than one of the set and names no file, and that what it returns has the property `P`.
What a document is read as carries the spans that the scan of its text gave (`keeps_ofText?`).

The property of a result and the span of a fault are kept together because a step hands tokens on
to the next, which fails at one of them.
-/

namespace PipelineExpansion

/-- A diagnostic names no file, and carries no span outside of a set. -/
structure Diagnostic.Within (S : Set Yaml.Span) (d : Diagnostic) : Prop where
  file : d.file = none
  span : ∀ s, d.span = some s → s ∈ S

/-- A fault may be given a place. -/
theorem Diagnostic.Within.withSpan {S : Set Yaml.Span} {d : Diagnostic} {span : Option Yaml.Span}
    (h : d.Within S) (hspan : ∀ s, span = some s → s ∈ S) : (d.withSpan span).Within S := by
  refine ⟨h.file, fun s hs => ?_⟩
  have hs : (d.span <|> span) = some s := hs
  cases hown : d.span with
  | none =>
      rw [hown] at hs
      exact hspan s hs
  | some own =>
      rw [hown] at hs
      cases hs
      exact h.span s hown

/-- What a step returns has a property, and its fault is within a set of spans. -/
structure Keeps {α : Type} (S : Set Yaml.Span) (x : Except Diagnostic α) (P : α → Prop) : Prop where
  returns : Ensures x P
  fault : ∀ d, x = .error d → d.Within S

section Keeps

variable {S : Set Yaml.Span} {α β σ : Type} {P : α → Prop} {Q : β → Prop} {x : Except Diagnostic α}

theorem keeps_ok {a : α} (h : P a) : Keeps S (.ok a) P := ⟨ensures_ok h, nofun⟩

theorem keeps_pure {a : α} (h : P a) : Keeps S (pure a) P := keeps_ok h

theorem keeps_error {d : Diagnostic} (h : d.Within S) : Keeps S (.error d) P := by
  refine ⟨ensures_error d P, ?_⟩
  rintro d' ⟨⟩
  exact h

theorem keeps_throw {d : Diagnostic} (h : d.Within S) : Keeps S (throw d) P := keeps_error h

theorem Keeps.bind {f : α → Except Diagnostic β} (h : Keeps S x P)
    (h' : ∀ a, P a → Keeps S (f a) Q) : Keeps S (x >>= f) Q := by
  refine ⟨h.returns.bind fun a ha => (h' a ha).returns, fun d hd => ?_⟩
  cases x with
  | error d' =>
      cases hd
      exact h.fault d rfl
  | ok a => exact (h' a (h.returns a rfl)).fault d hd

theorem Keeps.imp {P' : α → Prop} (h : Keeps S x P) (h' : ∀ a, P a → P' a) : Keeps S x P' :=
  ⟨fun a ha => h' a (h.returns a ha), h.fault⟩

theorem Keeps.mono {S' : Set Yaml.Span} (h : Keeps S x P) (hsub : S ⊆ S') : Keeps S' x P :=
  ⟨h.returns, fun d hd => ⟨(h.fault d hd).file, fun s hs => hsub ((h.fault d hd).span s hs)⟩⟩

/-- A value that is made of what a step returns. -/
theorem Keeps.map {f : α → β} (h : Keeps S x P) (h' : ∀ a, P a → Q (f a)) :
    Keeps S (x >>= fun a => pure (f a)) Q :=
  h.bind fun a ha => keeps_pure (h' a ha)

theorem Keeps.mapped {f : α → β} (h : Keeps S x P) (h' : ∀ a, P a → Q (f a)) :
    Keeps S (x.map f) Q := by
  have heq : x.map f = x >>= fun a => pure (f a) := by cases x <;> rfl
  rw [heq]
  exact h.map h'

/-- A value of which nothing has to hold. -/
theorem Keeps.done {f : α → β} (h : Keeps S x P) :
    Keeps S (x >>= fun a => pure (f a)) fun _ => True :=
  h.map fun _ _ => trivial

theorem keeps_foldlM {step : σ → α → Except Diagnostic σ} {P : σ → Prop} {Good : α → Prop}
    (hstep : ∀ s a, P s → Good a → Keeps S (step s a) P) {s : σ} (h : P s) {items : List α}
    (hitems : ∀ a ∈ items, Good a) : Keeps S (items.foldlM step s) P := by
  induction items generalizing s with
  | nil => exact keeps_pure h
  | cons a rest ih =>
      obtain ⟨ha, hrest⟩ := List.forall_mem_cons.mp hitems
      rw [List.foldlM_cons]
      exact (hstep s a h ha).bind fun s' hs' => ih hs' hrest

theorem keeps_mapM {f : α → Except Diagnostic β} {Good : α → Prop}
    (hf : ∀ a, Good a → Keeps S (f a) Q) {items : List α} (hitems : ∀ a ∈ items, Good a) :
    Keeps S (items.mapM f) fun bs => ∀ b ∈ bs, Q b := by
  induction items with
  | nil => exact keeps_pure (List.forall_mem_nil _)
  | cons a rest ih =>
      obtain ⟨ha, hrest⟩ := List.forall_mem_cons.mp hitems
      rw [List.mapM_cons]
      refine (hf a ha).bind fun b hb => (ih hrest).bind fun bs hbs => ?_
      exact keeps_pure (List.forall_mem_cons.mpr ⟨hb, hbs⟩)

theorem keeps_forM {check : α → Except Diagnostic PUnit} {Good : α → Prop}
    (hcheck : ∀ a, Good a → Keeps S (check a) fun _ => True) {items : List α}
    (hitems : ∀ a ∈ items, Good a) : Keeps S (items.forM check) fun _ => True := by
  rw [List.forM_eq_forM]
  induction items with
  | nil => exact keeps_pure trivial
  | cons a rest ih =>
      obtain ⟨ha, hrest⟩ := List.forall_mem_cons.mp hitems
      rw [List.forM_cons]
      exact (hcheck a ha).bind fun _ _ => ih hrest

end Keeps

namespace Template

variable {S : Set Yaml.Span} {t : Token} {k : Key}

/-! ### The spans of tokens -/

/-- A token bears a span: it is its own, or that of a key or of a token in it. -/
inductive Token.Bears : Token → Yaml.Span → Prop where
  | own {t : Token} {s : Yaml.Span} (h : t.span = some s) : t.Bears s
  | item {o : Origin} {items : List Token} {t : Token} {s : Yaml.Span} (hmem : t ∈ items)
      (h : t.Bears s) : (Token.sequence o items).Bears s
  | key {o : Origin} {entries : List (Key × Token)} {e : Key × Token} {s : Yaml.Span}
      (hmem : e ∈ entries) (h : e.1.origin.span = some s) : (Token.mapping o entries).Bears s
  | value {o : Origin} {entries : List (Key × Token)} {e : Key × Token} {s : Yaml.Span}
      (hmem : e ∈ entries) (h : e.2.Bears s) : (Token.mapping o entries).Bears s

/-- An origin carries no span outside of a set. -/
def Origin.From (S : Set Yaml.Span) (o : Origin) : Prop := ∀ s, o.span = some s → s ∈ S

/-- A token bears no span outside of a set. -/
def Token.From (S : Set Yaml.Span) (t : Token) : Prop := ∀ s, t.Bears s → s ∈ S

/-- An entry bears no span outside of a set. -/
def EntryFrom (S : Set Yaml.Span) (e : Entry) : Prop := e.1.origin.From S ∧ e.2.From S

theorem from_unknown : Origin.unknown.From S := nofun

theorem Token.From.origin (h : t.From S) : t.origin.From S := fun s hs => h s (.own hs)

theorem Token.from_sequence {o : Origin} {items : List Token} :
    (Token.sequence o items).From S ↔ o.From S ∧ ∀ t ∈ items, t.From S := by
  constructor
  · intro h
    exact ⟨h.origin, fun t ht s hs => h s (.item ht hs)⟩
  · rintro ⟨ho, hitems⟩ s (hs | ⟨hmem, hs⟩)
    · exact ho s hs
    · exact hitems _ hmem s hs

theorem Token.from_mapping {o : Origin} {entries : List Entry} :
    (Token.mapping o entries).From S ↔ o.From S ∧ ∀ e ∈ entries, EntryFrom S e := by
  constructor
  · intro h
    exact ⟨h.origin, fun e he => ⟨fun s hs => h s (.key he hs), fun s hs => h s (.value he hs)⟩⟩
  · rintro ⟨ho, hentries⟩ s (hs | _ | ⟨hmem, hs⟩ | ⟨hmem, hs⟩)
    · exact ho s hs
    · exact (hentries _ hmem).1 s hs
    · exact (hentries _ hmem).2 s hs

/-- A scalar bears no span but its own. -/
theorem Token.from_of_isScalar (hscalar : t.isScalar = true) (h : t.origin.From S) :
    t.From S := by
  rintro s (hs | _ | _ | _)
  · exact h s hs
  · cases hscalar
  · cases hscalar
  · cases hscalar

@[simp] theorem Token.from_ofNull : Token.ofNull.From S := from_of_isScalar rfl from_unknown

@[simp] theorem Token.from_ofBool (b : Bool) : (Token.ofBool b).From S :=
  from_of_isScalar rfl from_unknown

@[simp] theorem Token.from_ofNumber (n : Binary64) : (Token.ofNumber n).From S :=
  from_of_isScalar rfl from_unknown

@[simp] theorem Token.from_ofInt (n : Int) : (Token.ofInt n).From S :=
  from_of_isScalar rfl from_unknown

@[simp] theorem Token.from_ofText (s : String) : (Token.ofText s).From S :=
  from_of_isScalar rfl from_unknown

@[simp] theorem Token.from_ofItems {items : List Token} :
    (Token.ofItems items).From S ↔ ∀ t ∈ items, t.From S :=
  from_sequence.trans (and_iff_right from_unknown)

@[simp] theorem Token.from_ofPairs {pairs : List (String × Token)} :
    (Token.ofPairs pairs).From S ↔ ∀ p ∈ pairs, p.2.From S := by
  rw [Token.ofPairs, from_mapping, List.forall_mem_map, and_iff_right from_unknown]
  exact forall₂_congr fun p _ => and_iff_right from_unknown

theorem Token.From.withOrigin {o : Origin} (h : t.From S) (ho : o.From S) :
    (t.withOrigin o).From S := by
  cases t with
  | sequence _ items => exact from_sequence.mpr ⟨ho, (from_sequence.mp h).2⟩
  | mapping _ entries => exact from_mapping.mpr ⟨ho, (from_mapping.mp h).2⟩
  | _ => exact from_of_isScalar rfl ho

theorem Token.From.locatedAt {other : Token} (h : t.From S) (hother : other.origin.From S) :
    (t.locatedAt other).From S := by
  unfold Token.locatedAt
  split
  · exact h.withOrigin hother
  · exact h

theorem Token.From.items {items : List Token} (h : t.From S) (hitems : t.items? = some items) :
    ∀ t ∈ items, t.From S := by
  cases t with
  | sequence o items =>
      cases hitems
      exact (from_sequence.mp h).2
  | _ => cases hitems

theorem Token.From.entries {entries : List Entry} (h : t.From S)
    (hentries : t.entries? = some entries) : ∀ e ∈ entries, EntryFrom S e := by
  cases t with
  | mapping o entries =>
      cases hentries
      exact (from_mapping.mp h).2
  | _ => cases hentries

/-- What is found among the entries of a token is from where the token is from. -/
theorem Token.From.find {value : Token} {p : Entry → Bool} (h : t.From S)
    (hvalue : (do let entries ← t.entries?; (entries.find? p).map (·.2)) = some value) :
    value.From S := by
  obtain ⟨entries, hentries, hfind⟩ := Option.bind_eq_some_iff.mp hvalue
  obtain ⟨e, he, rfl⟩ := Option.map_eq_some_iff.mp hfind
  exact (h.entries hentries e (List.mem_of_find?_eq_some he)).2

theorem Token.From.get {value : Token} {name : String} (h : t.From S)
    (hvalue : t.get? name = some value) : value.From S :=
  h.find hvalue

theorem Token.From.lookup {value : Token} {name : String} (h : t.From S)
    (hvalue : t.lookup? name = some value) : value.From S :=
  h.find hvalue

/-! ### Faults -/

theorem within_of_none {d : Diagnostic} (hfile : d.file = none) (hspan : d.span = none) :
    d.Within S where
  file := hfile
  span s hs := by rw [hspan] at hs; cases hs

theorem within_meaning (message : String) : (Diagnostic.meaning message).Within S :=
  within_of_none rfl rfl

theorem Origin.From.shapeAt {o : Origin} (h : o.From S) (message : String) :
    (Diagnostic.shapeAt o.span message).Within S :=
  ⟨rfl, h⟩

theorem Token.From.fault (h : t.From S) (message : String) : (t.fault message).Within S :=
  h.origin.shapeAt message

theorem Origin.From.keyFault (h : k.origin.From S) (message : String) :
    (k.fault message).Within S :=
  h.shapeAt message

/-! ### Expectations -/

theorem Token.From.keeps_expectMapping (h : t.From S) (what : String) :
    Keeps S (t.expectMapping what) fun entries => ∀ e ∈ entries, EntryFrom S e := by
  unfold Token.expectMapping
  split
  · next entries hentries => exact keeps_ok (h.entries hentries)
  · exact keeps_error (h.fault _)

theorem Token.From.keeps_expectSequence (h : t.From S) (what : String) :
    Keeps S (t.expectSequence what) fun items => ∀ t ∈ items, t.From S := by
  unfold Token.expectSequence
  split
  · next items hitems => exact keeps_ok (h.items hitems)
  · exact keeps_error (h.fault _)

theorem Token.From.keeps_expectText (h : t.From S) (what : String) :
    Keeps S (t.expectText what) fun _ => True := by
  unfold Token.expectText
  split
  · exact keeps_ok trivial
  · exact keeps_error (h.fault _)

theorem Token.From.keeps_expectNonEmpty (h : t.From S) (what : String) :
    Keeps S (t.expectNonEmpty what) fun _ => True := by
  refine (h.keeps_expectText what).bind fun s _ => ?_
  split
  · exact keeps_throw (h.fault _)
  · exact keeps_pure trivial

theorem Token.From.keeps_expectBool (h : t.From S) (what : String) :
    Keeps S (t.expectBool what) fun _ => True := by
  have hrefuse : Keeps S (.error (t.fault ("Expected a boolean for '" ++ what ++ "'")))
      fun _ : Bool => True :=
    keeps_error (h.fault _)
  unfold Token.expectBool
  split
  · exact keeps_ok trivial
  · split
    · exact keeps_ok trivial
    · split
      · exact keeps_ok trivial
      · exact hrefuse
  · exact hrefuse

theorem Token.From.keeps_expectInt (h : t.From S) (what : String) :
    Keeps S (t.expectInt what) fun _ => True := by
  unfold Token.expectInt
  split
  · split
    · exact keeps_ok trivial
    · exact keeps_error (h.fault _)
  · exact keeps_error (h.fault _)

theorem Token.From.keeps_expectTexts (h : t.From S) (what : String) :
    Keeps S (t.expectTexts what) fun _ => True := by
  unfold Token.expectTexts
  split
  · exact keeps_ok trivial
  · next o items =>
    have hitems : ∀ t ∈ items, t.From S := (from_sequence.mp h).2
    exact (keeps_mapM (fun t ht => ht.keeps_expectText what) hitems).imp fun _ _ => trivial
  · exact (h.keeps_expectText what).mapped fun _ _ => trivial

theorem Token.From.keeps_expectTextMap (h : t.From S) (what : String) :
    Keeps S (t.expectTextMap what) fun _ => True := by
  unfold Token.expectTextMap
  split
  · exact keeps_ok trivial
  · refine (h.keeps_expectMapping what).bind fun entries hentries => ?_
    have htexts := keeps_mapM (S := S) (f := fun (e : Entry) => do
      return (e.1.name, ← e.2.expectText what)) (Q := fun _ => True)
      (fun e (he : EntryFrom S e) => (he.2.keeps_expectText what).done) hentries
    exact htexts.imp fun _ _ => trivial

/-! ### Documents -/

/-- A span is one of a text: that of an event of it, or the place where it cannot be scanned. -/
def SpanOf (source : String) : Set Yaml.Span := fun s =>
  (∃ events, Yaml.events source = .ok events ∧ ∃ e ∈ events, e.span = s) ∨
    ∃ d, Yaml.events source = .error d ∧ d.span = some s

theorem keeps_events (source : String) :
    Keeps (SpanOf source) (Yaml.events source) fun events =>
      ∀ e ∈ events, e.span ∈ SpanOf source := by
  refine ⟨fun events hevents e he => .inl ⟨events, hevents, e, he, rfl⟩, fun d hd => ?_⟩
  refine ⟨?_, fun s hs => .inr ⟨d, hd, hs⟩⟩
  unfold Yaml.events at hd
  cases hread : Yaml.Document.ofString? source with
  | ok events =>
      rw [hread] at hd
      cases hd
  | error refusal =>
      rw [hread] at hd
      cases hd
      rfl

theorem from_ofScalar {o : Origin} (h : o.From S) (s : String) (plain : Bool) :
    (Token.ofScalar o s plain).From S := by
  unfold Token.ofScalar
  repeat' split
  all_goals exact Token.from_of_isScalar rfl h

theorem within_endReached {span : Yaml.Span} (h : span ∈ S) : (endReached span).Within S := by
  refine ⟨rfl, ?_⟩
  rintro s ⟨⟩
  exact h

theorem from_some {span : Yaml.Span} (h : span ∈ S) (file : Option Nat) :
    (Origin.mk (some span) file).From S := by
  rintro s ⟨⟩
  exact h

mutual

/-- Every event gives its span to the token that it begins. -/
theorem keeps_build {file : Option Nat} {first : Yaml.Spanned} {rest : List Yaml.Spanned} (n : Nat)
    (hfirst : first.span ∈ S) (hrest : ∀ e ∈ rest, e.span ∈ S) :
    Keeps S (build file n first rest) fun r => r.1.From S ∧ ∀ e ∈ r.2, e.span ∈ S := by
  match n with
  | 0 => exact keeps_error (within_endReached hfirst)
  | n + 1 =>
      have ho := from_some hfirst file
      unfold build
      split
      · exact keeps_ok ⟨from_ofScalar ho _ _, hrest⟩
      · refine (keeps_buildItems n hfirst (List.forall_mem_nil _) hrest).bind ?_
        rintro ⟨items, left⟩ ⟨hitems, hleft⟩
        exact keeps_pure ⟨Token.from_sequence.mpr ⟨ho, hitems⟩, hleft⟩
      · refine (keeps_buildEntries n hfirst (List.forall_mem_nil _) hrest).bind ?_
        rintro ⟨entries, left⟩ ⟨hentries, hleft⟩
        exact keeps_pure ⟨Token.from_mapping.mpr ⟨ho, hentries⟩, hleft⟩
      · exact keeps_error (ho.shapeAt _)

theorem keeps_buildItems {file : Option Nat} {span : Yaml.Span} {items : List Token}
    {rest : List Yaml.Spanned} (n : Nat) (hspan : span ∈ S)
    (hitems : ∀ t ∈ items, t.From S) (hrest : ∀ e ∈ rest, e.span ∈ S) :
    Keeps S (buildItems file n span items rest)
      fun r => (∀ t ∈ r.1, t.From S) ∧ ∀ e ∈ r.2, e.span ∈ S := by
  match n, rest with
  | 0, _ => exact keeps_error (within_endReached hspan)
  | _ + 1, [] => exact keeps_error (within_endReached hspan)
  | n + 1, next :: rest =>
      obtain ⟨hnext, hrest⟩ := List.forall_mem_cons.mp hrest
      unfold buildItems
      split
      · exact keeps_ok ⟨fun t ht => hitems t (List.mem_reverse.mp ht), hrest⟩
      · refine (keeps_build n hnext hrest).bind ?_
        rintro ⟨item, left⟩ ⟨hitem, hleft⟩
        exact keeps_buildItems n hspan (List.forall_mem_cons.mpr ⟨hitem, hitems⟩) hleft

theorem keeps_buildEntries {file : Option Nat} {span : Yaml.Span} {entries : List Entry}
    {rest : List Yaml.Spanned} (n : Nat) (hspan : span ∈ S)
    (hentries : ∀ e ∈ entries, EntryFrom S e) (hrest : ∀ e ∈ rest, e.span ∈ S) :
    Keeps S (buildEntries file n span entries rest)
      fun r => (∀ e ∈ r.1, EntryFrom S e) ∧ ∀ e ∈ r.2, e.span ∈ S := by
  match n, rest with
  | 0, _ => exact keeps_error (within_endReached hspan)
  | _ + 1, [] => exact keeps_error (within_endReached hspan)
  | n + 1, next :: rest =>
      obtain ⟨hnext, hrest⟩ := List.forall_mem_cons.mp hrest
      have ho := from_some hnext file
      unfold buildEntries
      split
      · exact keeps_ok ⟨fun e he => hentries e (List.mem_reverse.mp he), hrest⟩
      · split
        · exact keeps_error (ho.shapeAt _)
        · split
          · exact keeps_error (within_endReached hnext)
          · next first rest =>
            obtain ⟨hfirst, hrest⟩ := List.forall_mem_cons.mp hrest
            refine (keeps_build n hfirst hrest).bind ?_
            rintro ⟨value, left⟩ ⟨hvalue, hleft⟩
            refine keeps_buildEntries n hspan ?_ hleft
            exact List.forall_mem_cons.mpr ⟨⟨ho, hvalue⟩, hentries⟩
      · exact keeps_error (ho.shapeAt _)

end

/-- **A document carries the spans of its text**, and so does the fault of a text that is none. -/
theorem keeps_ofText? (file : Option Nat) (source : String) :
    Keeps (SpanOf source) (Token.ofText? file source) (·.From (SpanOf source)) := by
  refine (keeps_events source).bind fun events hevents => ?_
  cases events with
  | nil => exact keeps_ok Token.from_ofNull
  | cons first rest =>
      obtain ⟨hfirst, hrest⟩ := List.forall_mem_cons.mp hevents
      refine (keeps_build _ hfirst hrest).bind ?_
      rintro ⟨token, left⟩ ⟨htoken, -⟩
      exact keeps_pure htoken

/-! ### Schemas -/

theorem EntryFrom.keeps_checkEntry {e : Entry} (h : EntryFrom S e) (d : Definition) :
    Keeps S (d.checkEntry e) fun _ => True := by
  unfold Definition.checkEntry
  split
  split
  · exact keeps_ok trivial
  · split
    · unfold Definition.checkValue
      split
      · exact keeps_ok trivial
      · split
        · exact keeps_ok trivial
        · exact keeps_error (h.2.fault _)
    · split
      · exact keeps_error ⟨rfl, h.1⟩
      · exact keeps_error (h.1.shapeAt _)

theorem Token.From.keeps_validate (h : t.From S) (schema : Schema) (definition : String) :
    Keeps S (schema.validate definition t) fun _ => True := by
  unfold Schema.validate
  split
  · exact keeps_error (within_meaning _)
  · split
    · next d _ _ entries hentries =>
      exact keeps_forM (fun e he => EntryFrom.keeps_checkEntry he d) (h.entries hentries)
    · exact keeps_error (h.fault _)

end Template
end PipelineExpansion
