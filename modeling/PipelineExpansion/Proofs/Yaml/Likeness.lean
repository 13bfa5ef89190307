import PipelineExpansion.Proofs.Yaml.Pair

/-!
# Readers do not see places

What scalars and flat mappings are read as depends on the texts of scalars and on the starts and ends of
collections. Where these stand, and whether a scalar is plain or in quotes, makes no difference.
`Alike R r r'` says so of two readers: off events with the same contents (`contents`), the second returns
what is related to what the first returns, and leaves the same contents.

The relation is kept by `bind`, and by loops whose turns are alike.

## Main results

* `Alike.readsAs`: a node is read as another of the same contents.
* `alike_boolean`, `alike_int32`, `alike_textMap`: readers that do not see places.
-/

namespace PipelineExpansion.Yaml

variable {α β γ δ σ τ : Type} {R : α → β → Prop} {S : γ → δ → Prop}

/-- An event without its place, and a scalar without its quotes. -/
def Spanned.content (s : Spanned) : Event :=
  match s.event with
  | .scalar text _ => .scalar text true
  | event => event

/-- Events without their places and quotes. -/
def contents (es : List Spanned) : List Event := es.map Spanned.content

/-- Off events with the same contents, what the first reader returns is related to what the second
returns; they leave the same contents. -/
def Alike (R : α → β → Prop) (r : Reader α) (r' : Reader β) : Prop :=
  ∀ c c' a d, contents c.rest = contents c'.rest → r.run.run c = (.ok a, d) →
    ∃ b d', r'.run.run c' = (.ok b, d') ∧ R a b ∧ contents d.rest = contents d'.rest

theorem alike_pure {a : α} {b : β} (h : R a b) : Alike R (pure a) (pure b) := by
  intro c c' a' d hc hrun
  cases hrun
  exact ⟨b, c', rfl, h, hc⟩

theorem alike_failAt (span : Option Span) (message : String) (r : Reader β) :
    Alike R (Reader.failAt span message) r := by
  intro c c' a d hc hrun
  cases hrun

theorem Alike.bind {r : Reader α} {r' : Reader β} {f : α → Reader γ} {f' : β → Reader δ}
    (h : Alike R r r') (hf : ∀ a b, R a b → Alike S (f a) (f' b)) :
    Alike S (r >>= f) (r' >>= f') := by
  intro c c' x d hc hrun
  obtain ⟨a, c₁, hr, hrun⟩ := run_bind_eq_ok.mp hrun
  obtain ⟨b, c₁', hr', hab, hc₁⟩ := h c c' a c₁ hc hr
  obtain ⟨y, d', hrun', hxy, hd⟩ := hf a b hab c₁ c₁' x d hc₁ hrun
  exact ⟨y, d', run_bind_eq_ok.mpr ⟨b, c₁', hr', hrun'⟩, hxy, hd⟩

/-- What is made of what two readers return. -/
theorem Alike.map {r : Reader α} {r' : Reader β} {f : α → γ} {f' : β → δ} (h : Alike R r r')
    (hf : ∀ a b, R a b → S (f a) (f' b)) :
    Alike S (r >>= fun a => pure (f a)) (r' >>= fun b => pure (f' b)) :=
  h.bind fun a b hab => alike_pure (hf a b hab)

/-! ### Single events -/

/-- Starts and ends of collections are the same wherever they stand. -/
theorem event_eq_iff_of_content {s s' : Spanned} {event : Event} (h : s.content = s'.content)
    (hevent : event.isScalar = false) : s.event = event ↔ s'.event = event := by
  have hcontent (s : Spanned) : s.content = event ↔ s.event = event := by
    obtain ⟨own, span⟩ := s
    cases own with
    | scalar text plain =>
        refine ⟨?_, ?_⟩ <;> rintro rfl <;> cases hevent
    | _ => exact Iff.rfl
  rw [← hcontent s, ← hcontent s', h]

theorem alike_take (expected expected' : String) :
    Alike (fun s s' => s.content = s'.content) (Reader.take expected) (Reader.take expected') := by
  rintro ⟨rest, last⟩ ⟨rest', last'⟩ a d hc hrun
  cases rest with
  | nil => cases hrun
  | cons s rest =>
      cases hrun
      cases rest' with
      | nil => cases hc
      | cons s' rest' =>
          obtain ⟨hs, hrest⟩ := List.cons.inj hc
          exact ⟨s', ⟨rest', last'⟩, rfl, hs, hrest⟩

theorem alike_scalar : Alike (fun a b => a.text = b.text) Reader.scalar Reader.scalar := by
  refine (alike_take _ _).bind fun s s' hs => ?_
  obtain ⟨event, span⟩ := s
  obtain ⟨event', span'⟩ := s'
  cases event with
  | scalar text plain =>
      cases event' with
      | scalar text' plain' => exact alike_pure (Event.scalar.inj hs).1
      | _ => cases hs
  | _ => exact alike_failAt _ _ _

theorem alike_expect {event : Event} (h : event.isScalar = false) :
    Alike (fun _ _ => True) (Reader.expect event) (Reader.expect event) := by
  refine (alike_take _ _).bind fun s s' hs => ?_
  split
  · next heq =>
    rw [if_pos ((event_eq_iff_of_content hs h).mp heq)]
    exact alike_pure trivial
  · exact alike_failAt _ _ _

theorem alike_comes {event : Event} (h : event.isScalar = false) :
    Alike Eq (Reader.comes event) (Reader.comes event) := by
  rintro ⟨rest, last⟩ ⟨rest', last'⟩ a d hc hrun
  cases hrun
  refine ⟨_, _, rfl, ?_, hc⟩
  cases rest with
  | nil =>
      cases rest' with
      | nil => rfl
      | cons s' rest' => cases hc
  | cons s rest =>
      cases rest' with
      | nil => cases hc
      | cons s' rest' =>
          exact decide_eq_decide.mpr (event_eq_iff_of_content (List.cons.inj hc).1 h)

theorem alike_allow {event : Event} (h : event.isScalar = false) :
    Alike Eq (Reader.allow event) (Reader.allow event) := by
  refine (alike_comes h).bind ?_
  rintro came _ rfl
  cases came with
  | false => exact alike_pure rfl
  | true =>
      refine Alike.bind (R := fun _ _ => True) ?_ fun _ _ _ => alike_pure rfl
      intro c c' a d hc hrun
      cases hrun
      refine ⟨⟨⟩, _, rfl, trivial, ?_⟩
      change contents (c.rest.drop 1) = contents (c'.rest.drop 1)
      rw [contents, contents, List.map_drop, List.map_drop]
      exact congrArg (List.drop 1) hc

/-! ### Loops -/

section Loop

variable {Q : σ → τ → Prop} {step : σ → Reader σ} {step' : τ → Reader τ} {closing : Event}

theorem alike_upTo (hclosing : closing.isScalar = false)
    (hstep : ∀ a b, Q a b → Alike Q (step a) (step' b)) (n : Nat) {a : σ} {b : τ} (h : Q a b) :
    Alike Q (Reader.upTo closing step n a) (Reader.upTo closing step' n b) := by
  induction n generalizing a b with
  | zero =>
      intro c c' x d hc hrun
      cases hrun
  | succ n ih =>
      rw [Reader.upTo, Reader.upTo]
      refine (alike_allow hclosing).bind ?_
      rintro closed _ rfl
      cases closed with
      | true => exact alike_pure h
      | false => exact (hstep a b h).bind fun a' b' h' => ih h'

theorem alike_untilEnd (hclosing : closing.isScalar = false)
    (hstep : ∀ a b, Q a b → Alike Q (step a) (step' b)) {a : σ} {b : τ} (h : Q a b) :
    Alike Q (Reader.untilEnd closing a step) (Reader.untilEnd closing b step') := by
  intro c c' x d hc hrun
  have hlength : c.rest.length = c'.rest.length := by
    simpa [contents] using congrArg List.length hc
  obtain ⟨y, d', hrun', hxy, hd⟩ :=
    alike_upTo hclosing hstep (c.rest.length + 1) h c c' x d hc hrun
  rw [hlength] at hrun'
  exact ⟨y, d', hrun', hxy, hd⟩

theorem alike_mappingOf (hstep : ∀ a b, Q a b → Alike Q (step a) (step' b)) {a : σ} {b : τ}
    (h : Q a b) : Alike Q (Reader.mappingOf a step) (Reader.mappingOf b step') :=
  (alike_expect rfl).bind fun _ _ _ => alike_untilEnd rfl hstep h

end Loop

/-! ### Values -/

theorem alike_boolean : Alike Eq Reader.boolean Reader.boolean := by
  refine alike_scalar.bind fun s s' hs => ?_
  dsimp only
  rw [hs]
  split
  · exact alike_pure rfl
  · split
    · exact alike_pure rfl
    · exact alike_failAt _ _ _

theorem alike_int32 : Alike Eq Reader.int32 Reader.int32 := by
  refine alike_scalar.bind fun s s' hs => ?_
  rw [hs]
  split
  · exact alike_pure rfl
  · exact alike_failAt _ _ _

theorem alike_refuseDuplicate (key key' : Scalar) (present : Bool) :
    Alike (fun _ _ => True) (Reader.refuseDuplicate key present)
      (Reader.refuseDuplicate key' present) := by
  cases present with
  | true => exact alike_failAt _ _ _
  | false => exact alike_pure trivial

theorem alike_textMap (order : NameOrder) :
    Alike Eq (Reader.textMap order) (Reader.textMap order) := by
  refine alike_mappingOf ?_ rfl
  rintro d _ rfl
  refine alike_scalar.bind fun key key' hkey => alike_scalar.bind fun value value' hvalue => ?_
  rw [hkey, hvalue]
  exact (alike_refuseDuplicate _ _ _).bind fun _ _ _ => alike_pure rfl

/-! ### Nodes -/

/-- **A node is read as another of the same contents**, by a reader that stays in the other. -/
theorem Alike.readsAs {r : Reader α} {r' : Reader β} {node node' : List Spanned} {a : α}
    (h : Alike R r r') (hstays : StaysIn r' node') (hcontents : contents node = contents node')
    (hreads : ReadsAs r node a) : ∃ b, R a b ∧ ReadsAs r' node' b := by
  have hrun := hreads [] none
  obtain ⟨b, d, hrun', hab, -⟩ := h ⟨node ++ [], none⟩ ⟨node' ++ [], none⟩ a _
    (by rw [List.append_nil, List.append_nil, hcontents]) hrun
  exact ⟨b, hab, (hstays.run_eq_ok_iff.mp hrun').2⟩

/-- The text of a scalar, by its contents. -/
def textOf : List Event → Option String
  | [.scalar text _] => some text
  | _ => none

/-- Events with the contents of a scalar are one. -/
theorem exists_scalar_of_textOf {node : List Spanned} {text : String}
    (h : textOf (contents node) = some text) :
    ∃ plain span, node = [⟨.scalar text plain, span⟩] := by
  rcases node with _ | ⟨⟨event, span⟩, _ | ⟨s, rest⟩⟩
  · cases h
  · cases event with
    | scalar own plain =>
        obtain rfl := Option.some.inj h
        exact ⟨plain, span, rfl⟩
    | _ => cases h
  · unfold textOf at h
    split at h
    · next heq => cases List.cons.inj heq |>.2
    · cases h

theorem readsAs_scalar_bind_iff {f : Scalar → Reader β} {text : String} {plain : Bool} {span : Span}
    {more : List Spanned} {b : β} :
    ReadsAs (Reader.scalar >>= f) (⟨.scalar text plain, span⟩ :: more) b ↔
      ReadsAs (f ⟨text, plain, span⟩) more b := by
  refine forall_congr' fun rest => forall_congr' fun last => ?_
  rw [run_bind, List.cons_append, run_scalar]

/-- A node is read as what is made of its text, if it has one. -/
theorem readsAs_text_iff {node : List Spanned} (h : IsNode node) {f : String → β} {b : β} :
    ReadsAs (Reader.scalar >>= fun s => pure (f s.text)) node b ↔
      ∃ text, textOf (contents node) = some text ∧ f text = b := by
  rw [(readsNode_scalar.node h).readsAs_map_iff]
  constructor
  · rintro ⟨s, hs, rfl⟩
    rw [readsAs_scalar_iff h] at hs
    exact ⟨s.text, by rw [hs]; rfl, rfl⟩
  · rintro ⟨text, htext, rfl⟩
    obtain ⟨plain, span, rfl⟩ := exists_scalar_of_textOf htext
    exact ⟨⟨text, plain, span⟩, (readsAs_scalar_iff h).mpr rfl, rfl⟩

/-! ### Flat mappings -/

/-- The contents of the key and the value of a pair. -/
abbrev Content := List Event × List Event

/-- What a pair holds. -/
def Pair.content (e : Pair) : Content := (contents e.key, contents e.value)

/-- The texts of a pair, as far as it has them. -/
def Content.texts (x : Content) : String × String := ((textOf x.1).getD "", (textOf x.2).getD "")

/-- Reads an entry of a mapping of texts. -/
def readText (order : NameOrder) (d : Dictionary String) : Reader (Dictionary String) := do
  let key ← Reader.scalar
  let value ← Reader.scalar
  Reader.refuseDuplicate key (d.names.any (order.same · key.text))
  return d.put key.text value.text

theorem staysIn_readText (order : NameOrder) (d : Dictionary String) {e : Pair} (he : e.IsPair) :
    StaysIn (readText order d) e.events :=
  he.staysIn readsNode_scalar fun _ => readsNode_scalar.bind fun _ =>
    (idle_refuseDuplicate _ _).bind fun _ => idle_pure _

/-- An entry with a new name is put into what there is. -/
theorem readsAs_readText_iff {order : NameOrder} {d d' : Dictionary String} {e : Pair}
    (he : e.IsPair) (hname : (textOf (contents e.key)).isSome)
    (hnew : ∀ n ∈ d.names, order.same n e.content.texts.1 = false) :
    ReadsAs (readText order d) e.events d' ↔
      (textOf (contents e.value)).isSome ∧ d.put e.content.texts.1 e.content.texts.2 = d' := by
  obtain ⟨name, hname⟩ := Option.isSome_iff_exists.mp hname
  have htext : e.content.texts.1 = name := by rw [Content.texts, Pair.content, hname]; rfl
  obtain ⟨plain, span, hkey⟩ := exists_scalar_of_textOf hname
  have hfresh : d.names.any (order.same · name) = false :=
    List.any_eq_false.mpr fun n hn => Bool.eq_false_iff.mp (htext ▸ hnew n hn)
  rw [Pair.events, hkey, List.singleton_append, readText, readsAs_scalar_bind_iff]
  simp only [hfresh, Reader.refuseDuplicate, Bool.false_eq_true, if_false, pure_bind]
  rw [readsAs_text_iff he.value (f := d.put name), htext]
  constructor
  · rintro ⟨value, hvalue, rfl⟩
    refine ⟨by rw [hvalue]; rfl, ?_⟩
    rw [Content.texts, Pair.content, hvalue]
    rfl
  · rintro ⟨hsome, rfl⟩
    obtain ⟨value, hvalue⟩ := Option.isSome_iff_exists.mp hsome
    refine ⟨value, hvalue, ?_⟩
    rw [Content.texts, Pair.content, hvalue]
    rfl

theorem steps_readText_iff {order : NameOrder} {pairs : List Pair} (hpairs : ∀ e ∈ pairs, e.IsPair)
    (hnames : ∀ e ∈ pairs, (textOf (contents e.key)).isSome)
    (hdistinct : pairs.Pairwise fun a b => order.same a.content.texts.1 b.content.texts.1 = false)
    {d d' : Dictionary String}
    (hnew : ∀ e ∈ pairs, ∀ n ∈ d.names, order.same n e.content.texts.1 = false) :
    Steps (readText order) d pairs d' ↔
      (∀ e ∈ pairs, (textOf (contents e.value)).isSome) ∧
        (pairs.map fun e => e.content.texts).foldl (fun d (k, v) => Dictionary.put d k v) d = d' := by
  induction pairs generalizing d with
  | nil => rw [steps_nil_iff, List.map_nil, List.foldl_nil, and_iff_right (List.forall_mem_nil _)]
  | cons e rest ih =>
      obtain ⟨he, hpairs⟩ := List.forall_mem_cons.mp hpairs
      obtain ⟨hname, hnames⟩ := List.forall_mem_cons.mp hnames
      obtain ⟨hhead, hdistinct⟩ := List.pairwise_cons.mp hdistinct
      obtain ⟨hown, hnew⟩ := List.forall_mem_cons.mp hnew
      have hnew' : ∀ e' ∈ rest, ∀ n ∈ (Dictionary.put d e.content.texts.1 e.content.texts.2).names,
          order.same n e'.content.texts.1 = false := by
        intro e' he' n hn
        rcases Dictionary.mem_names_put hn with rfl | hn
        · exact hhead e' he'
        · exact hnew e' he' n hn
      rw [steps_cons_iff, List.forall_mem_cons, List.map_cons, List.foldl_cons, and_assoc,
        ← ih hpairs hnames hdistinct hnew']
      constructor
      · rintro ⟨b, hread, hrest⟩
        obtain ⟨hvalue, rfl⟩ := (readsAs_readText_iff he hname hown).mp hread
        exact ⟨hvalue, hrest⟩
      · rintro ⟨hvalue, hrest⟩
        exact ⟨_, (readsAs_readText_iff he hname hown).mpr ⟨hvalue, rfl⟩, hrest⟩

/-- **What a mapping of texts is read as**: its texts, if all values have one and no name is there
twice. -/
theorem readsAs_textMap_iff {order : NameOrder} {start stop : Span} {pairs : List Pair}
    (hpairs : ∀ e ∈ pairs, e.IsPair) (hnames : ∀ e ∈ pairs, (textOf (contents e.key)).isSome)
    (hdistinct : pairs.Pairwise fun a b => order.same a.content.texts.1 b.content.texts.1 = false)
    {d : Dictionary String} :
    ReadsAs (Reader.textMap order) (mappingEvents start stop pairs) d ↔
      (∀ e ∈ pairs, (textOf (contents e.value)).isSome) ∧
        Dictionary.ofEntries (pairs.map fun e => e.content.texts) = d := by
  refine (readsAs_mappingOf_iff hpairs fun d e he => staysIn_readText order d (hpairs e he)).trans ?_
  exact steps_readText_iff hpairs hnames hdistinct fun e _ n hn => nomatch hn

end PipelineExpansion.Yaml
