import PipelineExpansion.Proofs.Yaml.Graph

/-!
# Readers stay in their node

A node is a scalar, or the start and the end of a collection around nodes (`IsNode`). A reader of a node
takes exactly its events when it succeeds. Whether it succeeds or fails, it takes none behind the node,
and none of these makes a difference to what it does (`StaysIn`).

This is proved along the structure of readers. Inside a collection a reader stands before the nodes that
are left and the end of the collection (`Open`). From there it may take one node or more (`Enters`) or none
(`Passes`), or go on to behind the end (`Closes`). A loop takes a node or more each turn, so that it comes to
the end (`closes_untilEnd`).

## Main results

* `readsNode_expect`: a reader that takes the start of a collection, and closes it, reads a node.
* `readsNode_mapping`, `readsNode_sequence`, `readsNode_textMap`, `readsNode_texts`: readers of graphs and
  of texts.
-/

namespace PipelineExpansion.Yaml

variable {α β σ : Type} {r : Reader α} {f : α → Reader β} {inside node content : List Spanned}
  {opening closing : Event}

/-! ### Nodes -/

/-- The start of a collection, and its end. -/
inductive Brackets : Event → Event → Prop
  | mapping : Brackets .mappingStart .mappingEnd
  | sequence : Brackets .sequenceStart .sequenceEnd

mutual

/-- Events that are a node: those of a scalar, or of a collection. -/
inductive IsNode : List Spanned → Prop
  | scalar (text : String) (plain : Bool) (span : Span) : IsNode [⟨.scalar text plain, span⟩]
  | collection {first last : Spanned} {content : List Spanned} (h : Brackets first.event last.event)
      (hcontent : Balanced content) : IsNode (first :: (content ++ [last]))

/-- Events that are some nodes, one behind the other. -/
inductive Balanced : List Spanned → Prop
  | nil : Balanced []
  | cons {node rest : List Spanned} (h : IsNode node) (hrest : Balanced rest) : Balanced (node ++ rest)

end

/-- What is left of a collection: nodes, and its end. -/
def Open (closing : Event) (inside : List Spanned) : Prop :=
  ∃ content last, Balanced content ∧ last.event = closing ∧ inside = content ++ [last]

theorem Open.ne_nil (h : Open closing inside) : inside ≠ [] := by
  obtain ⟨content, last, -, -, rfl⟩ := h
  exact List.append_ne_nil_of_right_ne_nil _ (List.cons_ne_nil _ _)

theorem IsNode.ne_nil (h : IsNode node) : node ≠ [] := by
  cases h <;> exact List.cons_ne_nil _ _

/-- No node begins with the end of a collection. -/
theorem IsNode.head_ne (h : IsNode node) (hclosing : Brackets opening closing) :
    ∃ first rest, node = first :: rest ∧ first.event ≠ closing := by
  cases h with
  | scalar text plain span =>
      refine ⟨_, _, rfl, ?_⟩
      cases hclosing <;> exact Event.noConfusion
  | @collection first last content h hcontent =>
      refine ⟨_, _, rfl, fun heq => ?_⟩
      rw [heq] at h
      cases hclosing <;> cases h

/-! ### What a reader does to the events of a node -/

/-- Off some events, whatever is behind them, a reader leaves the same and has the same outcome; a value
and what is left then have a property. -/
def Within (r : Reader α) (inside : List Spanned) (P : α → List Spanned → Prop) : Prop :=
  ∃ outcome left, left <:+ inside ∧ (∀ a, outcome = .ok a → P a left) ∧
    ∀ rest last, r.run.run ⟨inside ++ rest, last⟩ = (outcome, ⟨left ++ rest, last⟩)

/-- A reader takes the whole of a node when it succeeds. Be it that it succeeds or fails, it takes nothing
behind the node, and what is there makes no difference to it. -/
def StaysIn (r : Reader α) (node : List Spanned) : Prop := Within r node fun _ left => left = []

section Within

variable {P : α → List Spanned → Prop} {Q : β → List Spanned → Prop}

theorem within_pure {a : α} (h : P a inside) : Within (pure a) inside P :=
  ⟨.ok a, inside, List.suffix_rfl, fun _ ha => Except.ok.inj ha ▸ h, fun _ _ => rfl⟩

theorem within_throw (d : Diagnostic) (inside : List Spanned) (P : α → List Spanned → Prop) :
    Within (throw d : Reader α) inside P :=
  ⟨.error d, inside, List.suffix_rfl, nofun, fun _ _ => rfl⟩

theorem Within.imp {P' : α → List Spanned → Prop} (h : Within r inside P)
    (himp : ∀ a left, P a left → P' a left) : Within r inside P' := by
  obtain ⟨outcome, left, hleft, hP, hrun⟩ := h
  exact ⟨outcome, left, hleft, fun a ha => himp a left (hP a ha), hrun⟩

theorem Within.bind (h : Within r inside P) (hf : ∀ a left, P a left → Within (f a) left Q) :
    Within (r >>= f) inside Q := by
  obtain ⟨outcome, left, hleft, hP, hrun⟩ := h
  cases outcome with
  | error d =>
      refine ⟨.error d, left, hleft, nofun, fun rest last => ?_⟩
      rw [run_bind, hrun]
  | ok a =>
      obtain ⟨outcome, left', hleft', hQ, hrun'⟩ := hf a left (hP a rfl)
      refine ⟨outcome, left', hleft'.trans hleft, hQ, fun rest last => ?_⟩
      rw [run_bind, hrun]
      exact hrun' rest last

/-- A reader that stays in a node does so where the node stands before others. -/
theorem StaysIn.append (h : StaysIn r node) (more : List Spanned) :
    Within r (node ++ more) fun _ left => left = more := by
  obtain ⟨outcome, left, ⟨taken, htaken⟩, hP, hrun⟩ := h
  refine ⟨outcome, left ++ more, ⟨taken, ?_⟩, fun a ha => ?_, fun rest last => ?_⟩
  · rw [← List.append_assoc, htaken]
  · rw [hP a ha, List.nil_append]
  · rw [List.append_assoc, List.append_assoc]
    exact hrun (more ++ rest) last

/-- A reader that succeeds on a node, before whatever events, stands behind it, and would have returned the
same before any other events. -/
theorem StaysIn.run_eq_ok (h : StaysIn r node) {rest : List Spanned} {last : Option Span} {a : α}
    {c : Cursor} (hrun : r.run.run ⟨node ++ rest, last⟩ = (.ok a, c)) :
    c = ⟨rest, last⟩ ∧ ∀ rest' last', r.run.run ⟨node ++ rest', last'⟩ = (.ok a, ⟨rest', last'⟩) := by
  obtain ⟨outcome, left, -, hleft, hall⟩ := h
  obtain ⟨rfl, rfl⟩ := Prod.mk.inj ((hall rest last).symm.trans hrun)
  obtain rfl := hleft a rfl
  exact ⟨rfl, hall⟩

theorem within_take (expected : String) (s : Spanned) (rest : List Spanned) :
    Within (Reader.take expected) (s :: rest) fun a left => a = s ∧ left = rest :=
  ⟨.ok s, rest, List.suffix_cons s rest, fun _ ha => ⟨(Except.ok.inj ha).symm, rfl⟩, fun _ _ => rfl⟩

theorem within_expect (event : Event) (s : Spanned) (rest : List Spanned) :
    Within (Reader.expect event) (s :: rest) fun _ left => s.event = event ∧ left = rest := by
  refine (within_take _ s rest).bind ?_
  rintro _ _ ⟨rfl, rfl⟩
  split
  · next h => exact within_pure ⟨h, rfl⟩
  · exact within_throw _ _ _

end Within

/-! ### Readers of nodes, and steps inside a collection -/

/-- A reader takes a node and stays in it. Where there is none it refuses the end of the collection. -/
structure ReadsNode (r : Reader α) : Prop where
  node : ∀ {node}, IsNode node → StaysIn r node
  closing : ∀ {opening : Event} {s : Spanned}, Brackets opening s.event →
    Within r [s] fun _ _ => False

/-- A reader looks at no event. -/
def Idle (r : Reader α) : Prop := ∀ inside, Within r inside fun _ left => left = inside

/-- A reader takes no event, and looks at the next one at most. -/
def Looks (r : Reader α) : Prop := ∀ inside, inside ≠ [] → Within r inside fun _ left => left = inside

/-- Inside a collection a reader takes some nodes, and one at least. -/
def Enters (closing : Event) (r : Reader α) : Prop :=
  ∀ inside, Open closing inside →
    Within r inside fun _ left => Open closing left ∧ left.length < inside.length

/-- Inside a collection a reader takes some nodes, if any. -/
def Passes (closing : Event) (r : Reader α) : Prop :=
  ∀ inside, Open closing inside →
    Within r inside fun _ left => Open closing left ∧ left.length ≤ inside.length

/-- A reader takes what is left of a collection. -/
def Closes (closing : Event) (r : Reader α) : Prop :=
  ∀ inside, Open closing inside → Within r inside fun _ left => left = []

/-! #### No events -/

theorem idle_pure (a : α) : Idle (pure a) := fun _ => within_pure rfl

theorem idle_failAt (span : Option Span) (message : String) :
    Idle (Reader.failAt span message : Reader α) := fun _ => within_throw _ _ _

theorem Idle.bind (h : Idle r) (hf : ∀ a, Idle (f a)) : Idle (r >>= f) := by
  intro inside
  refine (h inside).bind ?_
  rintro a _ rfl
  exact hf a _

theorem idle_refuseDuplicate (key : Scalar) (present : Bool) :
    Idle (Reader.refuseDuplicate key present) := by
  unfold Reader.refuseDuplicate
  split
  · exact idle_failAt _ _
  · exact idle_pure _

theorem idle_refuseAfter (given : Bool) (previous current : String) (span : Span) :
    Idle (Reader.refuseAfter given previous current span) := by
  unfold Reader.refuseAfter
  split
  · exact idle_failAt _ _
  · exact idle_pure _

/-- A reader of the next event alone. -/
theorem looks_of_run (value : Spanned → α)
    (h : ∀ s rest last, r.run.run ⟨s :: rest, last⟩ = (.ok (value s), ⟨s :: rest, last⟩)) :
    Looks r := by
  intro inside hne
  obtain ⟨s, rest, rfl⟩ := List.exists_cons_of_ne_nil hne
  exact ⟨.ok (value s), s :: rest, List.suffix_rfl, fun _ _ => rfl, fun more last => h s _ last⟩

theorem looks_scalarComes : Looks Reader.scalarComes :=
  looks_of_run (fun s => s.event.isScalar) fun s _ _ => by
    obtain ⟨event, span⟩ := s
    cases event <;> rfl

theorem looks_comes (event : Event) : Looks (Reader.comes event) :=
  looks_of_run (fun s => decide (s.event = event)) fun _ _ _ => rfl

theorem looks_currentSpan : Looks Reader.currentSpan :=
  looks_of_run (fun s => some s.span) fun _ _ _ => rfl

/-! #### Nodes -/

/-- A node is read the same way by what reads a node and then looks at no event. -/
theorem ReadsNode.bind (h : ReadsNode r) (hf : ∀ a, Idle (f a)) : ReadsNode (r >>= f) where
  node hnode := (h.node hnode).bind fun a _ hleft => hleft ▸ hf a []
  closing hs := (h.closing hs).bind fun _ _ hfalse => hfalse.elim

theorem ReadsNode.map (h : ReadsNode r) (g : α → β) : ReadsNode (r >>= fun a => pure (g a)) :=
  h.bind fun a => idle_pure (g a)

theorem Looks.readsNode (h : Looks r) (hf : ∀ a, ReadsNode (f a)) : ReadsNode (r >>= f) where
  node hnode := by
    refine (h _ hnode.ne_nil).bind ?_
    rintro a _ rfl
    exact (hf a).node hnode
  closing hs := by
    refine (h _ (List.cons_ne_nil _ _)).bind ?_
    rintro a _ rfl
    exact (hf a).closing hs

theorem readsNode_scalar : ReadsNode Reader.scalar := by
  have hother {s : Spanned} (hs : ∀ text plain, s.event ≠ .scalar text plain) (rest : List Spanned)
      (P : Scalar → List Spanned → Prop) : Within Reader.scalar (s :: rest) P := by
    refine (within_take _ s rest).bind ?_
    rintro _ _ ⟨rfl, rfl⟩
    split
    · next h => exact absurd h (hs _ _)
    · exact within_throw _ _ _
  constructor
  · intro node hnode
    cases hnode with
    | scalar text plain span =>
        exact ⟨.ok ⟨text, plain, span⟩, [], List.nil_suffix, fun _ _ => rfl, fun _ _ => rfl⟩
    | @collection first last content h hcontent =>
        refine hother (fun text plain heq => ?_) _ _
        rw [heq] at h
        cases h
  · intro opening s hs
    refine hother (fun text plain heq => ?_) _ _
    rw [heq] at hs
    cases hs

/-- **A reader that takes the start of a collection, and then closes it, reads a node.** -/
theorem readsNode_expect (hbrackets : Brackets opening closing) {f : Span → Reader β}
    (h : ∀ span, Closes closing (f span)) : ReadsNode (Reader.expect opening >>= f) := by
  constructor
  · intro node hnode
    cases hnode with
    | scalar text plain span =>
        refine (within_expect opening _ []).bind ?_
        rintro span _ ⟨rfl, rfl⟩
        cases hbrackets
    | @collection first last content hends hcontent =>
        refine (within_expect opening first _).bind ?_
        rintro span _ ⟨rfl, rfl⟩
        -- A start has one end only.
        have hclosing : last.event = closing := by
          revert hends hbrackets
          generalize first.event = start, last.event = stop
          rintro (_ | _) (_ | _) <;> rfl
        exact h span _ ⟨content, last, hcontent, hclosing, rfl⟩
  · intro start s hs
    refine (within_expect opening s []).bind ?_
    rintro span _ ⟨heq, rfl⟩
    rw [heq] at hs
    cases hbrackets <;> cases hs

/-! #### Inside a collection -/

theorem Enters.passes (h : Enters closing r) : Passes closing r :=
  fun inside hopen => (h inside hopen).imp fun _ _ hleft => ⟨hleft.1, Nat.le_of_lt hleft.2⟩

theorem Looks.passes (h : Looks r) : Passes closing r := by
  intro inside hopen
  refine (h inside hopen.ne_nil).imp ?_
  rintro _ _ rfl
  exact ⟨hopen, Nat.le_refl _⟩

theorem Idle.passes (h : Idle r) : Passes closing r := Looks.passes fun inside _ => h inside

/-- A reader of a node takes the next one of a collection. -/
theorem ReadsNode.enters (h : ReadsNode r) (hbrackets : Brackets opening closing) :
    Enters closing r := by
  rintro inside ⟨content, last, hcontent, rfl, rfl⟩
  cases hcontent with
  | nil => exact (h.closing hbrackets).imp fun _ _ hfalse => hfalse.elim
  | @cons node rest hnode hrest =>
      rw [List.append_assoc]
      refine ((h.node hnode).append _).imp ?_
      rintro _ _ rfl
      refine ⟨⟨rest, last, hrest, rfl, rfl⟩, ?_⟩
      have hpos : 0 < node.length := List.length_pos_iff.mpr hnode.ne_nil
      have hlength : (node ++ (rest ++ [last])).length = node.length + (rest ++ [last]).length :=
        List.length_append
      omega

theorem Passes.bind (h : Passes closing r) (hf : ∀ a, Passes closing (f a)) : Passes closing (r >>= f) :=
  fun inside hopen => (h inside hopen).bind fun a left hleft =>
    (hf a left hleft.1).imp fun _ _ hleft' => ⟨hleft'.1, Nat.le_trans hleft'.2 hleft.2⟩

theorem Enters.bind (h : Enters closing r) (hf : ∀ a, Passes closing (f a)) :
    Enters closing (r >>= f) :=
  fun inside hopen => (h inside hopen).bind fun a left hleft =>
    (hf a left hleft.1).imp fun _ _ hleft' => ⟨hleft'.1, Nat.lt_of_le_of_lt hleft'.2 hleft.2⟩

theorem Passes.enters (h : Passes closing r) (hf : ∀ a, Enters closing (f a)) :
    Enters closing (r >>= f) :=
  fun inside hopen => (h inside hopen).bind fun a left hleft =>
    (hf a left hleft.1).imp fun _ _ hleft' => ⟨hleft'.1, Nat.lt_of_lt_of_le hleft'.2 hleft.2⟩

theorem Passes.closes (h : Passes closing r) (hf : ∀ a, Closes closing (f a)) :
    Closes closing (r >>= f) :=
  fun inside hopen => (h inside hopen).bind fun a left hleft => hf a left hleft.1

theorem Closes.bind (h : Closes closing r) (hf : ∀ a, Idle (f a)) : Closes closing (r >>= f) :=
  fun inside hopen => (h inside hopen).bind fun a _ hleft => hleft ▸ hf a []

theorem Closes.map (h : Closes closing r) (g : α → β) : Closes closing (r >>= fun a => pure (g a)) :=
  h.bind fun a => idle_pure (g a)

theorem closes_failAt (span : Option Span) (message : String) :
    Closes closing (Reader.failAt span message : Reader α) := fun _ _ => within_throw _ _ _

theorem closes_throw (d : Diagnostic) : Closes closing (throw d : Reader α) :=
  fun _ _ => within_throw _ _ _

/-- Nothing but the end may be left. -/
theorem closes_expect (hbrackets : Brackets opening closing) : Closes closing (Reader.expect closing) := by
  rintro inside ⟨content, last, hcontent, rfl, rfl⟩
  cases hcontent with
  | nil => exact (within_expect _ last []).imp fun _ _ hleft => hleft.2
  | @cons node rest hnode hrest =>
      obtain ⟨first, others, rfl, hfirst⟩ := hnode.head_ne hbrackets
      exact (within_expect _ first _).imp fun _ _ hleft => absurd hleft.1 hfirst

/-! #### Loops -/

theorem run_allow_closing {last : Spanned} (h : last.event = closing) (rest : List Spanned)
    (l : Option Span) :
    (Reader.allow closing).run.run ⟨last :: rest, l⟩ = (.ok true, ⟨rest, l⟩) := by
  rw [Reader.allow, run_bind, run_comes, decide_eq_true h]
  rfl

theorem run_allow_of_ne {first : Spanned} (h : first.event ≠ closing) (rest : List Spanned)
    (l : Option Span) :
    (Reader.allow closing).run.run ⟨first :: rest, l⟩ = (.ok false, ⟨first :: rest, l⟩) := by
  rw [Reader.allow, run_bind, run_comes, decide_eq_false h]
  rfl

/-- Turns that each take a node come to the end of a collection, however many more there might be. -/
theorem within_upTo (hbrackets : Brackets opening closing) {step : σ → Reader σ}
    (hstep : ∀ s, Enters closing (step s)) (hopen : Open closing inside) (s : σ) :
    ∃ outcome left, left <:+ inside ∧ (∀ a, outcome = .ok a → left = []) ∧
      ∀ n, inside.length < n → ∀ rest last,
        (Reader.upTo closing step n s).run.run ⟨inside ++ rest, last⟩ =
          (outcome, ⟨left ++ rest, last⟩) := by
  -- The induction is on the number of events that are left; a turn takes one at least.
  induction hlength : inside.length using Nat.strongRecOn generalizing inside s with
  | _ length ih =>
      subst hlength
      obtain ⟨content, last, hcontent, hlast, heq⟩ := id hopen
      cases hcontent with
      | nil =>
          refine ⟨.ok s, [], List.nil_suffix, fun _ _ => rfl, fun n hn rest l => ?_⟩
          obtain ⟨n, rfl⟩ : ∃ m, n = m + 1 := ⟨n - 1, by omega⟩
          rw [heq, List.nil_append, List.singleton_append, Reader.upTo, run_bind,
            run_allow_closing hlast]
          rfl
      | @cons node rest hnode hrest =>
          obtain ⟨first, others, rfl, hfirst⟩ := hnode.head_ne hbrackets
          obtain ⟨outcome, left, hleft, hP, hrun⟩ := hstep s inside hopen
          have hturn (n : Nat) (more : List Spanned) (l : Option Span) :
              (Reader.upTo closing step (n + 1) s).run.run ⟨inside ++ more, l⟩ =
                (step s >>= Reader.upTo closing step n).run.run ⟨inside ++ more, l⟩ := by
            rw [Reader.upTo, run_bind, heq, List.cons_append, List.cons_append, List.cons_append,
              run_allow_of_ne hfirst]
            rfl
          cases outcome with
          | error d =>
              have herror (a : σ) (heq : Except.error d = Except.ok a) : left = [] := by cases heq
              refine ⟨.error d, left, hleft, herror, fun n hn more l => ?_⟩
              obtain ⟨n, rfl⟩ : ∃ m, n = m + 1 := ⟨n - 1, by omega⟩
              rw [hturn, run_bind, hrun]
          | ok s' =>
              obtain ⟨hopen', hshorter⟩ := hP s' rfl
              obtain ⟨outcome, left', hleft', hclosed, hrun'⟩ := ih _ hshorter hopen' s' rfl
              refine ⟨outcome, left', hleft'.trans hleft, hclosed, fun n hn more l => ?_⟩
              obtain ⟨n, rfl⟩ : ∃ m, n = m + 1 := ⟨n - 1, by omega⟩
              rw [hturn, run_bind, hrun]
              exact hrun' n (by omega) more l

/-- **A loop closes the collection** if each of its turns takes a node at least. -/
theorem closes_untilEnd (hbrackets : Brackets opening closing) {step : σ → Reader σ}
    (hstep : ∀ s, Enters closing (step s)) (s : σ) :
    Closes closing (Reader.untilEnd closing s step) := by
  intro inside hopen
  obtain ⟨outcome, left, hleft, hclosed, hrun⟩ := within_upTo hbrackets hstep hopen s
  refine ⟨outcome, left, hleft, hclosed, fun rest last => ?_⟩
  have hlength : inside.length < (inside ++ rest).length + 1 := by
    rw [List.length_append]
    omega
  exact hrun _ hlength rest last

/-! ### Scalars -/

theorem readsNode_boolean : ReadsNode Reader.boolean := by
  refine readsNode_scalar.bind fun s => ?_
  dsimp only
  split
  · exact idle_pure _
  · split
    · exact idle_pure _
    · exact idle_failAt _ _

theorem readsNode_exact (expected : String) : ReadsNode (Reader.exact expected) := by
  refine readsNode_scalar.bind fun s => ?_
  split
  · exact idle_pure _
  · exact idle_failAt _ _

theorem readsNode_int32 : ReadsNode Reader.int32 := by
  refine readsNode_scalar.bind fun s => ?_
  split
  · exact idle_pure _
  · exact idle_failAt _ _

theorem readsNode_nonEmpty : ReadsNode Reader.nonEmpty := by
  refine readsNode_scalar.bind fun s => ?_
  split
  · exact (idle_failAt _ _).bind fun _ => idle_pure _
  · exact idle_pure _

/-! ### Collections -/

/-- The entries of a mapping begin with a scalar. -/
theorem enters_key {f : Scalar → Reader α} (h : ∀ key, Passes .mappingEnd (f key)) :
    Enters .mappingEnd (Reader.scalar >>= f) :=
  (readsNode_scalar.enters .mapping).bind h

theorem ReadsNode.passes (h : ReadsNode r) : Passes .mappingEnd r := (h.enters .mapping).passes

theorem ReadsNode.passes_map (h : ReadsNode r) (g : α → β) :
    Passes .mappingEnd (r >>= fun a => pure (g a)) := (h.map g).passes

theorem readsNode_mappingOf {entry : σ → Reader σ} (h : ∀ s, Enters .mappingEnd (entry s)) (s : σ) :
    ReadsNode (Reader.mappingOf s entry) :=
  readsNode_expect .mapping fun _ => closes_untilEnd .mapping h s

theorem closes_restOfSequence {item : Reader α} (h : ReadsNode item) :
    Closes .sequenceEnd (Reader.restOfSequence item) :=
  (closes_untilEnd .sequence (fun items => (h.map fun a => a :: items).enters .sequence) []).map
    List.reverse

theorem readsNode_sequenceOf {item : Reader α} (h : ReadsNode item) :
    ReadsNode (Reader.sequenceOf item) :=
  readsNode_expect .sequence fun _ => closes_restOfSequence h

theorem readsNode_texts : ReadsNode Reader.texts := by
  refine looks_scalarComes.readsNode fun single => ?_
  split
  · exact readsNode_nonEmpty.map fun s => [s]
  · exact readsNode_sequenceOf readsNode_nonEmpty

theorem readsNode_textMap (order : NameOrder) : ReadsNode (Reader.textMap order) := by
  refine readsNode_mappingOf (fun d => enters_key fun key => ?_) []
  refine readsNode_scalar.passes.bind fun value => ?_
  exact ((idle_refuseDuplicate _ _).bind fun _ => idle_pure _).passes

/-! ### Graphs -/

/-- A value in a collection is a node if collections are. -/
theorem readsNode_value {levels : Nat} (h : ∀ kind, ReadsNode (Reader.collection levels kind)) :
    ReadsNode (Reader.node levels) := by
  refine looks_scalarComes.readsNode fun single => ?_
  split
  · exact readsNode_scalar.map fun s => Graph.text s.text
  · refine (looks_comes _).readsNode fun isList => ?_
    split
    · exact h .list
    · exact h .mapping

theorem readsNode_collection (levels : Nat) (kind : Reader.Collection) :
    ReadsNode (Reader.collection levels kind) := by
  induction levels generalizing kind with
  | zero =>
      cases kind with
      | list => exact readsNode_expect .sequence fun span => closes_throw _
      | mapping => exact readsNode_expect .mapping fun span => closes_throw _
  | succ levels ih =>
      cases kind with
      | list =>
          rw [collection_list]
          exact (readsNode_sequenceOf (readsNode_value ih)).map Graph.list
      | mapping =>
          rw [collection_mapping]
          refine (readsNode_mappingOf (fun d => enters_key fun key => ?_) []).map Graph.mapping
          refine (idle_refuseDuplicate _ _).passes.bind fun _ => ?_
          exact (readsNode_value ih).passes_map fun value => Dictionary.put d key.text value

theorem readsNode_mapping (depth : Nat) : ReadsNode (Reader.mapping depth) := by
  refine (readsNode_collection _ _).bind fun graph => ?_
  split <;> exact idle_pure _

theorem readsNode_sequence (depth : Nat) : ReadsNode (Reader.sequence depth) := by
  refine (readsNode_collection _ _).bind fun graph => ?_
  split <;> exact idle_pure _

end PipelineExpansion.Yaml
