import PipelineExpansion.Proofs.Dictionary
import PipelineExpansion.Proofs.Yaml.Reading

/-!
# Reading trees back

A tree is read back entry by entry and item by item. `Entries step a es b` says that a reader of
the properties of a mapping, which is in the state `a`, is led by the entries `es` to the state
`b`; `takes_mappingOf` makes of it that the reader of the mapping takes the tree of these entries.

## Main results

* `takes_mappingOf`, `takes_sequenceOf`: mappings and sequences are taken off the events of their
  trees.
* `takes_textMap`: so are mappings of texts, whose names differ as their reader compares them.
-/

namespace PipelineExpansion.Yaml

variable {α β σ : Type}

/-! ### Trees of entries -/

/-- The names of entries. -/
def Tree.keys (entries : List (String × Tree)) : List String := entries.map (·.1)

@[simp] theorem Tree.keys_append (es es' : List (String × Tree)) :
    keys (es ++ es') = keys es ++ keys es' :=
  List.map_append

theorem Tree.putEntry_of_notMem {entries : List (String × Tree)} {key : String}
    (h : key ∉ keys entries)
    (t : Tree) : putEntry entries key t = entries ++ [(key, t)] := by
  induction entries with
  | nil => rfl
  | cons e rest ih =>
      rw [keys, List.map_cons, List.mem_cons, not_or] at h
      rw [putEntry, if_neg (Ne.symm h.1), ih h.2, List.cons_append]

/-- Entries of which none has the name of another make the mapping of just these. -/
theorem Tree.ofEntries_of_nodup {entries : List (String × Tree)} (h : (keys entries).Nodup) :
    ofEntries entries = .mapping entries := by
  have hfold : ∀ es, (keys (es ++ entries)).Nodup →
      entries.foldl (fun es e => putEntry es e.1 e.2) es = es ++ entries := by
    clear h
    induction entries with
    | nil => intro es _; rw [List.append_nil, List.foldl_nil]
    | cons e rest ih =>
        intro es h
        have hnew : e.1 ∉ keys es := by
          rw [keys_append, List.nodup_append] at h
          exact fun hmem => h.2.2 _ hmem _ List.mem_cons_self rfl
        rw [List.foldl_cons, putEntry_of_notMem hnew, ih, List.append_assoc,
          List.singleton_append]
        rwa [List.append_assoc, List.singleton_append]
  rw [ofEntries]
  exact congrArg Tree.mapping (hfold [] h)

/-- A node begins with no end. -/
theorem Tree.events_eq_cons (t : Tree) :
    ∃ e w, t.events = e :: w ∧ e ≠ .sequenceEnd ∧ e ≠ .mappingEnd := by
  cases t with
  | plain s => exact ⟨_, _, rfl, nofun, nofun⟩
  | text s => exact ⟨_, _, rfl, nofun, nofun⟩
  | sequence items => exact ⟨_, _, rfl, nofun, nofun⟩
  | mapping entries => exact ⟨_, _, rfl, nofun, nofun⟩

theorem Tree.entryEvents_append (es es' : List (String × Tree)) :
    entryEvents (es ++ es') = entryEvents es ++ entryEvents es' := by
  induction es with
  | nil => rfl
  | cons e rest ih => simp [entryEvents, ih]

theorem Tree.itemEvents_append (ts ts' : List Tree) :
    itemEvents (ts ++ ts') = itemEvents ts ++ itemEvents ts' := by
  induction ts with
  | nil => rfl
  | cons t rest ih => simp [itemEvents, ih]

/-! ### Mappings -/

/-- Entries lead the reader of a mapping's properties from one state to another. -/
def Entries (step : σ → Reader σ) (a : σ) (entries : List (String × Tree)) (b : σ) : Prop :=
  Loops .mappingEnd step a (Tree.entryEvents entries) b

section Entries

variable {step : σ → Reader σ} {a b c : σ} {es es' : List (String × Tree)}

theorem Entries.nil (a : σ) : Entries step a [] a := Loops.nil a

theorem Entries.append (h : Entries step a es b) (h' : Entries step b es' c) :
    Entries step a (es ++ es') c := by
  rw [Entries, Tree.entryEvents_append]
  exact Loops.append h h'

theorem Entries.single {key : String} {t : Tree}
    (h : Takes (step a) (.scalar key false :: t.events) b) :
    Entries step a [(key, t)] b := by
  have hloop : Loops .mappingEnd step a (.scalar key false :: (t.events ++ [])) b :=
    .cons nofun h (.nil b)
  exact hloop

theorem Entries.cons {key : String} {t : Tree}
    (h : Takes (step a) (.scalar key false :: t.events) b)
    (h' : Entries step b es c) : Entries step a ((key, t) :: es) c :=
  (Entries.single h).append h'

/-- A reader that goes by the name of an entry. -/
theorem takes_key {key : String} {w : List Event} {body : Scalar → Reader σ} {r : Reader σ}
    (h : Takes r w b) (hbody : ∀ name : Scalar, name.text = key → body name = r) :
    Takes (Reader.scalar >>= body) (.scalar key false :: w) b :=
  takes_scalar_bind fun name hname _ => hbody name hname ▸ h

/-- An entry that is written under a condition, without which there is nothing to say. -/
theorem Entries.when {p : Prop} [Decidable p] {key : String} {t : Tree}
    (h : p → Takes (step a) (.scalar key false :: t.events) b) (hnot : ¬ p → b = a) :
    Entries step a (if p then [(key, t)] else []) b := by
  split
  · next hp => exact .single (h hp)
  · next hp =>
    rw [hnot hp]
    exact .nil a

theorem Entries.unless {p : Prop} [Decidable p] {key : String} {t : Tree} (h : p → b = a)
    (hnot : ¬ p → Takes (step a) (.scalar key false :: t.events) b) :
    Entries step a (if p then [] else [(key, t)]) b := by
  rw [← ite_not]
  exact .when hnot fun hp => h (not_not.mp hp)

/-- The entries of a mapping whose start has been taken. -/
theorem takes_entries (h : Entries step a es b) :
    Takes (Reader.untilEnd .mappingEnd a step) (Tree.entryEvents es ++ [.mappingEnd]) b :=
  takes_untilEnd rfl h

theorem takes_mapping (h : Entries step a es b) :
    Takes (Reader.mappingOf a step) (Tree.mapping es).events b :=
  takes_expect_bind rfl fun _ => takes_entries h

/-- **The reader of a mapping takes the tree of its entries.** -/
theorem takes_mappingOf (hkeys : (Tree.keys es).Nodup) (h : Entries step a es b) :
    Takes (Reader.mappingOf a step) (Tree.ofEntries es).events b := by
  rw [Tree.ofEntries_of_nodup hkeys]
  exact takes_mapping h

end Entries

/-! ### Sequences -/

/-- Items lead the reader of a sequence to the items before them and these, the last one first. -/
theorem loops_items {item : Reader α} {write : β → Tree} {f : β → α} {items : List β}
    (h : ∀ x ∈ items, Takes item (write x).events (f x)) (done : List α) :
    Loops .sequenceEnd (fun done => item >>= fun a => pure (a :: done)) done
      (Tree.itemEvents (items.map write)) ((items.map f).reverse ++ done) := by
  induction items generalizing done with
  | nil => exact .nil done
  | cons x rest ih =>
      obtain ⟨hx, hrest⟩ := List.forall_mem_cons.mp h
      obtain ⟨e, w, hevents, hend, -⟩ := (write x).events_eq_cons
      have htake := hx.map (· :: done)
      rw [List.map_cons, Tree.itemEvents, List.map_cons, List.reverse_cons, List.append_assoc,
        List.singleton_append, hevents, List.cons_append]
      exact .cons hend (hevents ▸ htake) (ih hrest _)

theorem takes_restOfSequence {item : Reader α} {write : β → Tree} {f : β → α} {items : List β}
    (h : ∀ x ∈ items, Takes item (write x).events (f x)) :
    Takes (Reader.restOfSequence item) (Tree.itemEvents (items.map write) ++ [.sequenceEnd])
      (items.map f) := by
  have hitems := (takes_untilEnd rfl (loops_items h [])).map List.reverse
  rwa [List.append_nil, List.reverse_reverse] at hitems

/-- **The reader of a sequence takes the tree of its items.** -/
theorem takes_sequenceOf {item : Reader α} {write : β → Tree} {f : β → α} {items : List β}
    (h : ∀ x ∈ items, Takes item (write x).events (f x)) :
    Takes (Reader.sequenceOf item) (Tree.sequence (items.map write)).events (items.map f) :=
  takes_expect_bind rfl fun _ => takes_restOfSequence h

/-- Items that are read back as they are. -/
theorem takes_sequenceOf_self {item : Reader α} {write : α → Tree} {items : List α}
    (h : ∀ x ∈ items, Takes item (write x).events x) :
    Takes (Reader.sequenceOf item) (Tree.sequence (items.map write)).events items := by
  have htake := takes_sequenceOf (f := id) h
  rwa [List.map_id] at htake

/-! ### Dictionaries -/

/-- A dictionary is put together from entries whose names differ, in the sense `R` in which its
reader wants them to. -/
theorem entries_put (R : String → String → Prop) {step : Dictionary α → Reader (Dictionary α)}
    {write : β → Tree} {g : β → α} {pairs : List (String × β)}
    (hstep : ∀ d, ∀ p ∈ pairs, (∀ name ∈ d.names, R name p.1) →
      Takes (step d) (.scalar p.1 false :: (write p.2).events) (d.put p.1 (g p.2)))
    (h : pairs.Pairwise fun a b => R a.1 b.1) :
    Entries step [] (pairs.map fun p => (p.1, write p.2))
      (Dictionary.ofEntries (pairs.map fun p => (p.1, g p.2))) := by
  suffices hfold : ∀ done : Dictionary α, (∀ name ∈ done.names, ∀ p ∈ pairs, R name p.1) →
      Entries step done (pairs.map fun p => (p.1, write p.2))
        ((pairs.map fun p => (p.1, g p.2)).foldl (fun d e => Dictionary.put d e.1 e.2) done) from
    hfold [] nofun
  induction pairs with
  | nil => exact fun done _ => .nil done
  | cons p rest ih =>
      intro done hdone
      obtain ⟨hp, hrest⟩ := List.forall_mem_cons.mp (fun p hp d => hstep d p hp)
      obtain ⟨hhead, htail⟩ := List.pairwise_cons.mp h
      refine .cons (hp done fun name hname => hdone name hname p List.mem_cons_self) ?_
      refine ih (fun d p hp => hrest p hp d) htail _ fun name hname q hq => ?_
      rcases Dictionary.mem_names_put hname with rfl | hmem
      · exact hhead q hq
      · exact hdone name hmem q (List.mem_cons_of_mem _ hq)

theorem NameOrder.same_self (order : NameOrder) (name : String) :
    order.same name name = true := by
  cases order <;> simp [same, Text.sameName]

theorem NameOrder.same_comm (order : NameOrder) (a b : String) :
    order.same a b = order.same b a := by
  cases order <;> simp [same, Text.sameName, eq_comm]

theorem yields_refuseDuplicate (key : Scalar) (present : Bool) :
    Yields (Reader.refuseDuplicate key present) fun _ => present = false := by
  rw [Reader.refuseDuplicate]
  split
  · exact yields_failAt _ _ _
  · next h => exact yields_pure (Bool.eq_false_of_not_eq_true h)

theorem takes_refuseDuplicate_bind {key : Scalar} {present : Bool} (h : present = false)
    {f : Unit → Reader β} {w : List Event} {b : β} (hf : Takes (f ()) w b) :
    Takes (Reader.refuseDuplicate key present >>= f) w b := by
  subst h
  exact hf

/-- A mapping of texts whose names differ as its reader compares them. -/
theorem takes_textMap (order : NameOrder) {pairs : List (String × String)}
    (h : pairs.Pairwise fun a b => order.same a.1 b.1 = false) :
    Takes (Reader.textMap order) (Tree.ofTexts pairs).events (Dictionary.ofEntries pairs) := by
  have hkeys : (Tree.keys (pairs.map fun p => (p.1, Tree.text p.2))).Nodup := by
    rw [Tree.keys, List.map_map]
    refine List.pairwise_map.mpr (h.imp fun hsame heq => ?_)
    simp only [Function.comp_apply] at heq
    rw [heq, order.same_self] at hsame
    cases hsame
  have hentries : Entries (fun (d : Dictionary String) => do
      let key ← Reader.scalar
      let value ← Reader.scalar
      Reader.refuseDuplicate key (d.names.any (order.same · key.text))
      return d.put key.text value.text) [] (pairs.map fun p => (p.1, Tree.text p.2))
        (Dictionary.ofEntries (pairs.map fun p => (p.1, id p.2))) := by
    refine entries_put (fun a b => order.same a b = false) (fun d p _ hfresh => ?_) h
    refine takes_scalar_bind fun key hkey _ => takes_scalar_bind fun value hvalue _ => ?_
    refine takes_refuseDuplicate_bind ?_ ?_
    · rw [hkey]
      simpa using hfresh
    · rw [hkey, hvalue]
      exact takes_pure _
  simp only [id, Prod.mk.eta, List.map_id'] at hentries
  exact takes_mappingOf hkeys hentries

/-- A mapping of texts is a dictionary whose names differ as its reader compares them. -/
theorem yields_textMap (order : NameOrder) :
    Yields (Reader.textMap order) fun d =>
      d.Canonical ∧ d.Pairwise fun a b => order.same a.1 b.1 = false := by
  refine yields_mappingOf ⟨Dictionary.canonical_nil, .nil⟩ fun d ⟨hcanonical, hfresh⟩ => ?_
  refine yields_bind_of_forall fun key => yields_bind_of_forall fun value => ?_
  refine (yields_refuseDuplicate _ _).bind fun _ hpresent => yields_pure ⟨hcanonical.put, ?_⟩
  have hnew : ∀ n ∈ d.names, order.same n key.text = false := by simpa using hpresent
  refine Dictionary.pairwise_put (R := fun a b => order.same a b = false)
    (fun a b hab => (order.same_comm b a).trans hab) hfresh hnew fun hmem => ?_
  have hsame := hnew _ hmem
  rw [order.same_self] at hsame
  cases hsame

/-! ### Texts -/

/-- Several texts are taken off their sequence; a single one is written in another form. -/
theorem takes_texts {texts : List String} (h : ∀ s ∈ texts, s ≠ "") :
    Takes Reader.texts (Tree.sequence (texts.map .text)).events texts :=
  takes_scalarComes_bind (takes_sequenceOf_self fun s hs => takes_nonEmpty (h s hs))

end PipelineExpansion.Yaml
