import PipelineExpansion.Proofs.Expression.Inherited
import PipelineExpansion.Proofs.Template.Charge
import PipelineExpansion.Template.Evaluate

/-!
# Evaluation under limits

Limits stop an evaluation and do nothing else: under stricter limits it does what it does under wider
ones, or fails with a limit. `Curbed S P x y` says so of a step `x` under the stricter limits and the
same step `y` under the wider ones, and says of what `x` returns and of its fault where they come
from, since the values that an evaluation puts together are from the template and from the named
values.

The proof follows the mutual recursion of `evalToken`, `evalItems`, `evalBody` and `evalEntries`. All
that is known of limits is in the two lemmas on the charges, `curbed_enter` and
`curbed_chargeBytes`.

## Main results

* `curbed_evaluate`: an evaluation is curbed by stricter limits.
-/

namespace PipelineExpansion.Template

/-- Limits that admit nothing that others refuse. -/
structure Limits.Within (l l' : Limits) : Prop where
  depth : l.maxDepth ≤ l'.maxDepth
  events : l.maxEvents ≤ l'.maxEvents
  bytes : l.maxBytes ≤ l'.maxBytes
  files : l'.maxFiles = 0 ∨ l.maxFiles ≠ 0 ∧ l.maxFiles ≤ l'.maxFiles

theorem Limits.Within.refl (l : Limits) : l.Within l where
  depth := Nat.le_refl _
  events := Nat.le_refl _
  bytes := Nat.le_refl _
  files := by omega

/-- A step does what another does, or fails with a limit. What it returns has a property, and its
fault is within a set of spans. -/
structure Curbed {α : Type} (S : Set Yaml.Span) (P : α → Prop) (x y : Charged α) : Prop where
  returns : ∀ u a u', x.run.run u = (.ok a, u') → P a ∧ y.run.run u = (.ok a, u')
  fails : ∀ u d u', x.run.run u = (.error d, u') →
    d.Within S ∧ (d.kind = .limit ∨ y.run.run u = (.error d, u'))

variable {S : Set Yaml.Span} {α β σ : Type} {P : α → Prop} {Q : β → Prop} {l l' : Limits}

/-! ### Composing steps -/

theorem curbed_pure {a : α} (h : P a) : Curbed S P (pure a) (pure a) where
  returns := by
    rintro u b u' ⟨⟩
    exact ⟨h, rfl⟩
  fails := by
    rintro u d u' ⟨⟩

theorem Curbed.bind {x y : Charged α} {f g : α → Charged β} (h : Curbed S P x y)
    (h' : ∀ a, P a → Curbed S Q (f a) (g a)) : Curbed S Q (x >>= f) (y >>= g) where
  returns := by
    intro u b u' hrun
    obtain ⟨a, u₁, hx, hf⟩ := run_bind_eq_ok.mp hrun
    obtain ⟨ha, hy⟩ := h.returns u a u₁ hx
    rw [run_bind_ok hy]
    exact (h' a ha).returns u₁ b u' hf
  fails := by
    intro u d u' hrun
    rcases hx : x.run.run u with ⟨d' | a, u₁⟩
    · obtain ⟨hwithin, hd⟩ := h.fails u d' u₁ hx
      rw [run_bind_error hx] at hrun
      cases hrun
      exact ⟨hwithin, hd.imp_right run_bind_error⟩
    · obtain ⟨ha, hy⟩ := h.returns u a u₁ hx
      rw [run_bind_ok hx] at hrun
      rw [run_bind_ok hy]
      exact (h' a ha).fails u₁ d u' hrun

theorem Curbed.map {x y : Charged α} {f : α → β} (h : Curbed S P x y) (h' : ∀ a, P a → Q (f a)) :
    Curbed S Q (x >>= fun a => pure (f a)) (y >>= fun a => pure (f a)) :=
  h.bind fun a ha => curbed_pure (h' a ha)

/-- A step without effects is the same under all limits. -/
theorem curbed_lift {x : Except Diagnostic α} (h : Keeps S x P) :
    Curbed S P (liftM x : Charged α) (liftM x) where
  returns := by
    intro u a u' hrun
    have hpair : (x, u) = (.ok a, u') := hrun
    cases hpair
    exact ⟨h.returns a rfl, rfl⟩
  fails := by
    intro u d u' hrun
    have hpair : (x, u) = (.error d, u') := hrun
    cases hpair
    exact ⟨h.fault d rfl, .inr rfl⟩

theorem curbed_mapM {f g : α → Charged β} {Good : α → Prop}
    (h : ∀ a, Good a → Curbed S Q (f a) (g a)) {items : List α} (hitems : ∀ a ∈ items, Good a) :
    Curbed S (fun bs => ∀ b ∈ bs, Q b) (items.mapM f) (items.mapM g) := by
  induction items with
  | nil => exact curbed_pure (List.forall_mem_nil _)
  | cons a rest ih =>
      obtain ⟨ha, hrest⟩ := List.forall_mem_cons.mp hitems
      rw [List.mapM_cons, List.mapM_cons]
      refine (h a ha).bind fun b hb => (ih hrest).map fun bs hbs => ?_
      exact List.forall_mem_cons.mpr ⟨hb, hbs⟩

theorem curbed_foldlM {f g : σ → α → Charged σ} {P : σ → Prop} {Good : α → Prop}
    (h : ∀ s a, P s → Good a → Curbed S P (f s a) (g s a)) {s : σ} (hs : P s) {items : List α}
    (hitems : ∀ a ∈ items, Good a) : Curbed S P (items.foldlM f s) (items.foldlM g s) := by
  induction items generalizing s with
  | nil => exact curbed_pure hs
  | cons a rest ih =>
      obtain ⟨ha, hrest⟩ := List.forall_mem_cons.mp hitems
      rw [List.foldlM_cons, List.foldlM_cons]
      exact (h s a hs ha).bind fun s' hs' => ih hs' hrest

/-! ### Charges -/

theorem within_limit (message : String) : (Diagnostic.limit message).Within S :=
  within_of_none rfl rfl

/-- A charge that is held against a wider limit goes through where it did, and as it did. -/
theorem curbed_charge {x y : Charged Unit} {maximum maximum' : Nat} {d d' : Diagnostic}
    {used : Usage → Nat} {charge : Usage → Usage} (hwider : maximum ≤ maximum')
    (hkind : d.kind = .limit) (hwithin : d.Within S)
    (hx : ∀ u, x.run.run u = (if maximum < used u then .error d else .ok (), charge u))
    (hy : ∀ u, y.run.run u = (if maximum' < used u then .error d' else .ok (), charge u)) :
    Curbed S (fun _ => True) x y where
  returns := by
    intro u a u' hrun
    rw [hx] at hrun
    rw [hy]
    split at hrun
    · cases hrun
    · rw [if_neg (by omega)]
      exact ⟨trivial, hrun⟩
  fails := by
    intro u e u' hrun
    rw [hx] at hrun
    split at hrun
    · cases hrun
      exact ⟨hwithin, .inl hkind⟩
    · cases hrun

theorem curbed_chargeEvents (h : l.Within l') (count : Nat) :
    Curbed S (fun _ => True) (l.chargeEvents count) (l'.chargeEvents count) :=
  curbed_charge h.events rfl (within_limit _) (run_chargeEvents l count) (run_chargeEvents l' count)

theorem curbed_chargeBytes (h : l.Within l') (count : Nat) :
    Curbed S (fun _ => True) (l.chargeBytes count) (l'.chargeBytes count) :=
  curbed_charge h.bytes rfl (within_limit _) (run_chargeBytes l count) (run_chargeBytes l' count)

theorem curbed_enter (h : l.Within l') (depth : Nat) :
    Curbed S (fun _ => True) (l.enter depth) (l'.enter depth) := by
  have hdepth := h.depth
  have hcharge := curbed_chargeEvents (S := S) h 1
  constructor
  · intro u a u' hrun
    rw [run_enter] at hrun ⊢
    split at hrun
    · cases hrun
    · rw [if_neg (by omega)]
      exact hcharge.returns u a u' hrun
  · intro u d u' hrun
    rw [run_enter] at hrun ⊢
    split at hrun
    · cases hrun
      exact ⟨within_limit _, .inl rfl⟩
    · rw [if_neg (by omega)]
      exact hcharge.fails u d u' hrun

/-! ### Expressions in texts -/

variable {names : Token} {o : Origin} {key : Key}

theorem within_expressionFault (ho : o.From S) (source : String) (f : Expression.Fault) :
    (expressionFault o.span source f).Within S := by
  refine Diagnostic.Within.withSpan ⟨?_, ?_⟩ ho
  · cases f <;> rfl
  · cases f <;> exact nofun

theorem keeps_evalExpression (hnames : names.From S) (ho : o.From S) (source : String) :
    Keeps S (evalExpression names o.span source) (·.From S) := by
  refine ⟨fun value hvalue => ?_, fun d hd => ?_⟩
  · exact Expression.ensures_evaluate hnames source value (mapError_eq_ok.mp hvalue)
  · unfold evalExpression at hd
    cases hvalue : Expression.evaluate source names with
    | ok value =>
        rw [hvalue] at hd
        cases hd
    | error f =>
        rw [hvalue] at hd
        cases hd
        exact within_expressionFault ho source f

theorem keeps_segmentText (hnames : names.From S) (ho : o.From S) (segment : Expression.Segment) :
    Keeps S (segmentText names o.span segment) fun _ => True := by
  cases segment with
  | text s => exact keeps_ok trivial
  | expression source =>
      refine (keeps_evalExpression hnames ho source).bind fun value hvalue => ?_
      split
      · exact keeps_pure trivial
      · exact keeps_throw (ho.shapeAt _)

theorem keeps_segments (ho : o.From S) (s : String) :
    Keeps S ((Expression.segments s).mapError (expressionFault o.span s)) fun _ => True := by
  refine ⟨fun _ _ => trivial, fun d hd => ?_⟩
  cases hsegments : Expression.segments s with
  | ok segments =>
      rw [hsegments] at hd
      cases hd
  | error f =>
      rw [hsegments] at hd
      cases hd
      exact within_expressionFault ho s f

theorem curbed_evalText (h : l.Within l') (hnames : names.From S) (ho : o.From S) (s : String) :
    Curbed S (·.From S) (evalText l names o s) (evalText l' names o s) := by
  have hown : (Token.text o s).From S := Token.from_of_isScalar rfl ho
  unfold evalText
  split
  · exact curbed_pure hown
  · split
    · next source _ =>
      refine (curbed_lift (keeps_evalExpression hnames ho source)).bind fun value hvalue => ?_
      have hlocated : (value.locatedAt (.text o s)).From S := hvalue.locatedAt ho
      generalize value.locatedAt (.text o s) = located at hlocated ⊢
      cases located with
      | text => exact (curbed_chargeBytes h _).map fun _ _ => hlocated
      | _ => exact curbed_pure hlocated
    · refine (curbed_lift (keeps_segments ho s)).bind fun segments _ => ?_
      have htexts := keeps_mapM (fun segment (_ : segment ∈ segments) =>
        keeps_segmentText hnames ho segment) fun segment hsegment => hsegment
      refine (curbed_lift htexts).bind fun texts _ => ?_
      exact (curbed_chargeBytes h _).map fun _ _ => Token.from_of_isScalar rfl ho

/-! ### Branches, loops and collections -/

/-- The collection that a loop goes through is from where the template is from. -/
def Branch.From (S : Set Yaml.Span) : Branch → Prop
  | .loop _ collection => collection.From S
  | _ => True

theorem keeps_branchOn (hnames : names.From S) (hkey : key.origin.From S) (condition : String) :
    Keeps S (branchOn names key condition) (Branch.From S) := by
  refine (keeps_evalExpression hnames hkey condition).bind fun value _ => ?_
  split
  · exact keeps_pure trivial
  · exact keeps_pure trivial

theorem keeps_selectBranch (hnames : names.From S) (hkey : key.origin.From S)
    (directive : Directive) (chain : Chain) :
    Keeps S (selectBranch names key directive chain) (Branch.From S) := by
  unfold selectBranch
  split
  · exact keeps_branchOn hnames hkey _
  · exact keeps_error (hkey.keyFault _)
  · exact keeps_ok trivial
  · exact keeps_branchOn hnames hkey _
  · exact keeps_error (hkey.keyFault _)
  · exact keeps_ok trivial
  · exact keeps_ok trivial
  · exact (keeps_evalExpression hnames hkey _).map fun collection hcollection => hcollection
  · exact keeps_ok trivial

theorem keeps_elements {collection : Token} (hkey : key.origin.From S) (h : collection.From S) :
    Keeps S (elements key collection) fun items => ∀ t ∈ items, t.From S := by
  unfold elements
  split
  · exact keeps_ok (List.forall_mem_nil _)
  · exact keeps_ok (Token.from_sequence.mp h).2
  · next o entries =>
    have hentries := (Token.from_mapping.mp h).2
    refine keeps_ok (List.forall_mem_map.mpr fun e he => Token.from_ofPairs.mpr ?_)
    have hname : (Token.text e.1.origin e.1.name).From S :=
      Token.from_of_isScalar rfl (hentries e he).1
    simpa using ⟨hname, (hentries e he).2⟩
  · exact keeps_error (hkey.keyFault _)

theorem from_bindName {value : Token} (hnames : names.From S) (hvalue : value.From S)
    (name : String) : (bindName names name value).From S := by
  refine Token.from_mapping.mpr ⟨from_unknown, List.forall_mem_append.mpr ⟨fun e he => ?_, ?_⟩⟩
  · have hmem := (List.mem_filter.mp he).1
    cases hentries : names.entries? with
    | none =>
        rw [hentries] at hmem
        cases hmem
    | some entries =>
        rw [hentries] at hmem
        exact hnames.entries hentries e hmem
  · exact List.forall_mem_singleton.mpr ⟨from_unknown, hvalue⟩

theorem keeps_rounds {collection : Token} (hnames : names.From S) (hkey : key.origin.From S)
    (h : collection.From S) (name : String) :
    Keeps S (rounds names key name collection) fun rounds => ∀ names ∈ rounds, names.From S :=
  (keeps_elements hkey h).mapped fun _ hitems =>
    List.forall_mem_map.mpr fun item hitem => from_bindName hnames (hitems item hitem) name

theorem keeps_addEntry {entries : List Entry} {e : Entry} (h : ∀ e ∈ entries, EntryFrom S e)
    (he : EntryFrom S e) : Keeps S (addEntry entries e) fun es => ∀ e ∈ es, EntryFrom S e := by
  unfold addEntry
  split
  · exact keeps_error (he.1.keyFault _)
  · exact keeps_ok (List.forall_mem_append.mpr ⟨h, List.forall_mem_singleton.mpr he⟩)

theorem keeps_mergeBody {entries : List Entry} {body : Token} (hkey : key.origin.From S)
    (h : ∀ e ∈ entries, EntryFrom S e) (hbody : body.From S) :
    Keeps S (mergeBody key entries body) fun es => ∀ e ∈ es, EntryFrom S e := by
  unfold mergeBody
  split
  · exact keeps_ok h
  · exact keeps_foldlM (fun es e hes (he : EntryFrom S e) => keeps_addEntry hes he) h
      (Token.from_mapping.mp hbody).2
  · exact keeps_error (hkey.keyFault _)

theorem keeps_keyOf {t : Token} (h : t.From S) : Keeps S (keyOf t) fun key => key.origin.From S := by
  unfold keyOf
  split
  · exact keeps_ok h.origin
  · exact keeps_error (h.fault _)

theorem curbed_evalKey (h : l.Within l') (hnames : names.From S) (hkey : key.origin.From S)
    (depth : Nat) :
    Curbed S (fun key => key.origin.From S) (evalKey l names depth key)
      (evalKey l' names depth key) :=
  (curbed_enter h depth).bind fun _ _ =>
    (curbed_evalText h hnames hkey key.name).bind fun _ htext => curbed_lift (keeps_keyOf htext)

theorem from_spliced {item value : Token} (h : value.From S) : ∀ t ∈ spliced item value, t.From S := by
  unfold spliced
  split
  · exact (Token.from_sequence.mp h).2
  · exact List.forall_mem_singleton.mpr h

theorem from_bodyItems {body : Token} (h : body.From S) : ∀ t ∈ bodyItems body, t.From S := by
  cases body with
  | sequence o items => exact (Token.from_sequence.mp h).2
  | null o => exact List.forall_mem_nil _
  | _ => exact List.forall_mem_singleton.mpr h

theorem from_itemDirective? {item : Token} {directive : Directive} (h : item.From S)
    (hdirective : itemDirective? item = some (key, directive)) : key.origin.From S := by
  unfold itemDirective? at hdirective
  split at hdirective
  · obtain ⟨d, -, hpair⟩ := Option.map_eq_some_iff.mp hdirective
    cases hpair
    exact ((Token.from_mapping.mp h).2 _ (List.mem_singleton_self _)).1
  · cases hdirective

/-! ### The walk -/

mutual

theorem curbed_evalToken {names t : Token} (h : l.Within l') (hnames : names.From S)
    (ht : t.From S) (depth : Nat) :
    Curbed S (·.From S) (evalToken l names depth t) (evalToken l' names depth t) := by
  match t with
  | .text o s =>
      unfold evalToken
      exact (curbed_enter h depth).bind fun _ _ => curbed_evalText h hnames ht.origin s
  | .sequence o items =>
      unfold evalToken
      obtain ⟨ho, hitems⟩ := Token.from_sequence.mp ht
      refine (curbed_enter h depth).bind fun _ _ => ?_
      exact (curbed_evalItems h hnames hitems depth none).map fun items hitems =>
        Token.from_sequence.mpr ⟨ho, hitems⟩
  | .mapping o entries =>
      unfold evalToken
      obtain ⟨ho, hentries⟩ := Token.from_mapping.mp ht
      refine (curbed_enter h depth).bind fun _ _ => ?_
      exact (curbed_evalEntries h hnames (List.forall_mem_nil _) hentries depth none).map
        fun entries hentries => Token.from_mapping.mpr ⟨ho, hentries⟩
  | .null o | .boolean o b | .number o n =>
      unfold evalToken
      exact (curbed_enter h depth).map fun _ _ => ht
termination_by sizeOf t

theorem curbed_evalItems {names : Token} {items : List Token} (h : l.Within l')
    (hnames : names.From S) (hitems : ∀ t ∈ items, t.From S) (depth : Nat) (chain : Chain) :
    Curbed S (fun ts => ∀ t ∈ ts, t.From S) (evalItems l names depth chain items)
      (evalItems l' names depth chain items) := by
  match items with
  | [] =>
      unfold evalItems
      exact curbed_pure (List.forall_mem_nil _)
  | item :: rest =>
      obtain ⟨hitem, hrest⟩ := List.forall_mem_cons.mp hitems
      unfold evalItems
      split
      · refine (curbed_evalToken h hnames hitem (depth + 1)).bind fun value hvalue => ?_
        refine (curbed_evalItems h hnames hrest depth none).map fun more hmore => ?_
        exact List.forall_mem_append.mpr ⟨from_spliced hvalue, hmore⟩
      · next key directive hdirective =>
        have hkey := from_itemDirective? hitem hdirective
        have hselect := keeps_selectBranch hnames hkey directive chain
        refine (curbed_lift hselect).bind fun branch hbranch => ?_
        split
        · next next =>
          refine (curbed_evalBody h hnames hitem depth).bind fun own hown => ?_
          refine (curbed_evalItems h hnames hrest depth next).map fun more hmore => ?_
          exact List.forall_mem_append.mpr ⟨hown, hmore⟩
        · next next => exact curbed_evalItems h hnames hrest depth next
        · next name collection =>
          refine (curbed_lift (keeps_rounds hnames hkey hbranch name)).bind fun rounds hrounds => ?_
          have hbodies := curbed_mapM (fun (names : Token) (hnames : names.From S) =>
            curbed_evalBody h hnames hitem depth) hrounds
          refine hbodies.bind fun own hown => ?_
          refine (curbed_evalItems h hnames hrest depth none).map fun more hmore => ?_
          refine List.forall_mem_append.mpr ⟨fun t ht => ?_, hmore⟩
          obtain ⟨ts, hts, htmem⟩ := List.mem_flatten.mp ht
          exact hown ts hts t htmem
termination_by sizeOf items

theorem curbed_evalBody {names item : Token} (h : l.Within l') (hnames : names.From S)
    (hitem : item.From S) (depth : Nat) :
    Curbed S (fun ts => ∀ t ∈ ts, t.From S) (evalBody l names depth item)
      (evalBody l' names depth item) := by
  match item with
  | .mapping _ [(key, .sequence o items)] =>
      unfold evalBody
      have hbody := ((Token.from_mapping.mp hitem).2 _ (List.mem_singleton_self _)).2
      exact curbed_evalItems h hnames (Token.from_sequence.mp hbody).2 (depth + 1) none
  | .mapping _ [(key, body@(.mapping ..))] | .mapping _ [(key, body@(.text ..))]
  | .mapping _ [(key, body@(.number ..))] | .mapping _ [(key, body@(.boolean ..))] =>
      unfold evalBody
      have hbody := ((Token.from_mapping.mp hitem).2 _ (List.mem_singleton_self _)).2
      exact (curbed_evalToken h hnames hbody (depth + 1)).map fun _ => from_bodyItems
  | .mapping _ [(_, .null _)] | .mapping _ [] | .mapping _ (_ :: _ :: _) | .sequence ..
  | .null _ | .boolean .. | .number .. | .text .. =>
      unfold evalBody
      exact curbed_pure (List.forall_mem_nil _)
termination_by sizeOf item

theorem curbed_evalEntries {names : Token} {done entries : List Entry} (h : l.Within l')
    (hnames : names.From S) (hdone : ∀ e ∈ done, EntryFrom S e)
    (hentries : ∀ e ∈ entries, EntryFrom S e) (depth : Nat) (chain : Chain) :
    Curbed S (fun es => ∀ e ∈ es, EntryFrom S e) (evalEntries l names depth chain done entries)
      (evalEntries l' names depth chain done entries) := by
  match entries with
  | [] =>
      unfold evalEntries
      exact curbed_pure hdone
  | (key, value) :: rest =>
      obtain ⟨⟨hkey, hvalue⟩, hrest⟩ := List.forall_mem_cons.mp hentries
      unfold evalEntries
      split
      · refine (curbed_evalKey h hnames hkey (depth + 1)).bind fun key hkey => ?_
        refine (curbed_evalToken h hnames hvalue (depth + 1)).bind fun value hvalue => ?_
        refine (curbed_lift (keeps_addEntry hdone ⟨hkey, hvalue⟩)).bind fun done hdone => ?_
        exact curbed_evalEntries h hnames hdone hrest depth none
      · next directive _ =>
        have hselect := keeps_selectBranch hnames hkey directive chain
        refine (curbed_lift hselect).bind fun branch hbranch => ?_
        split
        · next next =>
          refine (curbed_evalToken h hnames hvalue (depth + 1)).bind fun body hbody => ?_
          refine (curbed_lift (keeps_mergeBody hkey hdone hbody)).bind fun done hdone => ?_
          exact curbed_evalEntries h hnames hdone hrest depth next
        · next next => exact curbed_evalEntries h hnames hdone hrest depth next
        · next name collection =>
          refine (curbed_lift (keeps_rounds hnames hkey hbranch name)).bind fun rounds hrounds => ?_
          have hbodies := curbed_foldlM (fun done (names : Token) hdone (hnames : names.From S) =>
            (curbed_evalToken h hnames hvalue (depth + 1)).bind fun body hbody =>
              curbed_lift (keeps_mergeBody hkey hdone hbody)) hdone hrounds
          exact hbodies.bind fun done hdone => curbed_evalEntries h hnames hdone hrest depth none
termination_by sizeOf entries

end

/-- **Stricter limits only stop an evaluation**: it does what it does under wider limits, or fails
with a limit. -/
theorem curbed_evaluate {t : Token} (h : l.Within l') (ht : t.From S) (hnames : names.From S) :
    Curbed S (·.From S) (evaluate l t names) (evaluate l' t names) :=
  curbed_evalToken h hnames ht 1

end PipelineExpansion.Template
