import Mathlib.Data.List.Forall2
import PipelineExpansion.Proofs.Dictionary
import PipelineExpansion.Proofs.Expression.Equality

/-!
# Tokens and their JSON

Written as JSON, a token loses three things: its places, the order of the entries in its mappings, and the
minus of a zero. Nothing else is lost as long as names are distinct, since an object keeps one member a name,
and numbers are whole ones that JSON keeps apart from others. So the token that comes back is the one that
went in, without places and with its mappings in order (`Token.sorted`); the members of an object are in
ascending order already (`toJson_mapping`).

To say this of numbers as numbers and of numbers as data alike, tokens are compared up to a relation
between their numbers (`Token.Agrees`).

## Main results

* `agrees_ofJson_toJson`: what comes back is the token without places and in order, with its numbers read as
  whole ones.
* `toJson_ofJson_toJson`: written again, it is the same JSON. This holds of every token.
* `ofJson_toJson`: the two together, for tokens with distinct names and whole numbers.
-/

namespace PipelineExpansion.Template

variable {entries : List Entry} {items : List Token} {t : Token}

/-! ### Mappings in order -/

/-- Whether the name of an entry comes no later than that of another. -/
def namedInOrder (a b : Entry) : Bool := a.1.name ≤ b.1.name

mutual

/-- A token with the entries of every mapping in it in ascending order of their names. -/
def Token.sorted : Token → Token
  | .sequence o items => .sequence o (sortedItems items)
  | .mapping o entries => .mapping o ((sortedValues entries).mergeSort namedInOrder)
  | t => t

/-- Items with their mappings in order. -/
def sortedItems : List Token → List Token
  | [] => []
  | t :: rest => t.sorted :: sortedItems rest

/-- Entries whose values have their mappings in order. -/
def sortedValues : List (Key × Token) → List (Key × Token)
  | [] => []
  | (k, t) :: rest => (k, t.sorted) :: sortedValues rest

end

theorem sortedItems_eq (items : List Token) : sortedItems items = items.map Token.sorted := by
  induction items with
  | nil => rfl
  | cons t rest ih => exact congrArg (t.sorted :: ·) ih

theorem sortedValues_eq (entries : List Entry) :
    sortedValues entries = entries.map fun e => (e.1, e.2.sorted) := by
  induction entries with
  | nil => rfl
  | cons e rest ih => exact congrArg ((e.1, e.2.sorted) :: ·) ih

/-! ### Tokens up to their numbers -/

/-- Two tokens that differ at most in their numbers, which are related one by one. -/
inductive Token.Agrees (R : Binary64 → Binary64 → Prop) : Token → Token → Prop
  | null (o : Origin) : Agrees R (.null o) (.null o)
  | boolean (o : Origin) (b : Bool) : Agrees R (.boolean o b) (.boolean o b)
  | number (o : Origin) {m n : Binary64} (h : R m n) : Agrees R (.number o m) (.number o n)
  | text (o : Origin) (s : String) : Agrees R (.text o s) (.text o s)
  | sequence (o : Origin) {items others : List Token} (h : List.Forall₂ (Agrees R) items others) :
      Agrees R (.sequence o items) (.sequence o others)
  | mapping (o : Origin) {entries others : List Entry}
      (hkeys : entries.map Prod.fst = others.map Prod.fst)
      (hvalues : List.Forall₂ (Agrees R) (entries.map Prod.snd) (others.map Prod.snd)) :
      Agrees R (.mapping o entries) (.mapping o others)

/-- Lists are equal if what is related to an item of the first is that item. -/
theorem eq_of_forall₂ {α : Type} {R : α → α → Prop} {l l' : List α} (h : List.Forall₂ R l l')
    (hl : ∀ a ∈ l, ∀ b, R a b → a = b) : l = l' := by
  induction h with
  | nil => rfl
  | cons hab _ ih =>
      obtain ⟨ha, hrest⟩ := List.forall_mem_cons.mp hl
      rw [ha _ hab, ih hrest]

namespace Token

variable {u : Token} {R : Binary64 → Binary64 → Prop}

/-- Tokens whose numbers are equal are equal. -/
theorem eq_of_agrees (h : Agrees Eq t u) : t = u := by
  induction t using Token.induct generalizing u with
  | scalar t hscalar =>
      cases h with
      | number o h => rw [h]
      | sequence | mapping => cases hscalar
      | _ => rfl
  | sequence o items ih =>
      cases h with
      | sequence _ h => rw [eq_of_forall₂ h fun t ht u => ih t ht]
  | mapping o entries ih =>
      cases h with
      | mapping _ hkeys hvalues =>
        have hsame := eq_of_forall₂ hvalues fun v hv u huv => by
          obtain ⟨e, he, rfl⟩ := List.mem_map.mp hv
          exact ih e he huv
        rw [List.zip_of_prod hkeys hsame, ← List.zip_of_prod rfl rfl]

/-! ### Collections as lists -/

theorem itemsJson_eq (items : List Token) : itemsJson items = items.map toJson := by
  induction items with
  | nil => rfl
  | cons t rest ih => rw [itemsJson, ih, List.map_cons]

theorem entriesJson_eq (entries : List Entry) :
    entriesJson entries = entries.map fun e => (e.1.name, e.2.toJson) := by
  induction entries with
  | nil => rfl
  | cons e rest ih => rw [entriesJson, ih, List.map_cons]

theorem ofJsonItems_eq (items : List Json) : ofJsonItems items = items.map ofJson := by
  induction items with
  | nil => rfl
  | cons v rest ih => rw [ofJsonItems, ih, List.map_cons]

theorem ofJsonMembers_eq (members : List (String × Json)) :
    ofJsonMembers members = members.map fun m => (⟨.unknown, m.1⟩, ofJson m.2) := by
  induction members with
  | nil => rfl
  | cons m rest ih => rw [ofJsonMembers, ih, List.map_cons]

/-! ### Members in order -/

/-- Entries with distinct names are in strictly ascending order once they are sorted. -/
theorem pairwise_mergeSort_lt (h : DistinctNames entries) :
    (entries.mergeSort namedInOrder).Pairwise fun a b => a.1.name < b.1.name := by
  have htrans (a b c : Entry) (hab : namedInOrder a b = true) (hbc : namedInOrder b c = true) :
      namedInOrder a c = true :=
    decide_eq_true (le_trans (of_decide_eq_true hab) (of_decide_eq_true hbc))
  have htotal (a b : Entry) : (namedInOrder a b || namedInOrder b a) = true := by
    simpa [namedInOrder] using le_total a.1.name b.1.name
  have hsorted := List.pairwise_mergeSort htrans htotal entries
  have hdistinct : (entries.mergeSort namedInOrder).Pairwise fun a b => a.1.name ≠ b.1.name :=
    (List.pairwise_map.mp h).perm (List.mergeSort_perm entries _).symm Ne.symm
  exact hsorted.imp₂ (fun a b hle hne => lt_of_le_of_ne (of_decide_eq_true hle) hne) hdistinct

theorem mergeSort_pair {a b : Entry} (h : b.1.name < a.1.name) :
    [a, b].mergeSort namedInOrder = [b, a] := by
  simp [List.mergeSort, List.MergeSort.Internal.splitInTwo, namedInOrder, h]

/-- The members of the object of a mapping are its entries in ascending order. -/
theorem toJson_mapping {o : Origin} (h : DistinctNames entries) :
    (Token.mapping o entries).toJson =
      .object ((entries.mergeSort namedInOrder).map fun e => (e.1.name, e.2.toJson)) := by
  rw [toJson, entriesJson_eq]
  refine congrArg Json.object (Dictionary.ofEntries_eq_of_perm ?_ ?_)
  · exact List.pairwise_map.mpr (pairwise_mergeSort_lt h)
  · exact (List.mergeSort_perm entries _).symm.map _

theorem sorted_unplaced_sequence (o : Origin) (items : List Token) :
    (Token.sequence o items).unplaced.sorted =
      .sequence .unknown (items.map fun t => t.unplaced.sorted) := by
  rw [unplaced, unplacedItems_eq, ofItems, sorted, sortedItems_eq, List.map_map]
  rfl

/-- The entries of a mapping in order, without places and with the mappings in them in order. -/
theorem sorted_unplaced_mapping (o : Origin) (entries : List Entry) :
    (Token.mapping o entries).unplaced.sorted = .mapping .unknown
      ((entries.mergeSort namedInOrder).map fun e => (⟨.unknown, e.1.name⟩, e.2.unplaced.sorted)) := by
  rw [unplaced, sorted, unplacedEntries_eq, sortedValues_eq, List.map_map]
  refine congrArg (Token.mapping .unknown) (List.map_mergeSort ?_).symm
  exact fun a _ b _ => rfl

/-- **What is written as JSON is read as the same token**, without places and with its entries in order, up to
the numbers, which are read as whole ones. -/
theorem agrees_ofJson_toJson (hnames : t.Distinct)
    (hnumbers : ∀ n, t.HasNumber n → ∃ i, shownWhole? n = some i ∧ R (.ofInt i) n) :
    Agrees R (ofJson t.toJson) t.unplaced.sorted := by
  induction t using Token.induct with
  | scalar t hscalar =>
      cases t with
      | null o => exact .null _
      | boolean o b => exact .boolean _ b
      | number o n =>
          obtain ⟨i, hi, hR⟩ := hnumbers n .own
          rw [toJson, numberJson, hi]
          exact .number _ hR
      | text o s => exact .text _ s
      | sequence | mapping => cases hscalar
  | sequence o items ih =>
      rw [toJson, itemsJson_eq, ofJson, ofJsonItems_eq, sorted_unplaced_sequence]
      refine .sequence _ ?_
      simp only [List.map_map, List.forall₂_map_left_iff, List.forall₂_map_right_iff, List.forall₂_same]
      exact fun t ht => ih t ht (distinct_sequence.mp hnames t ht) fun n hn => hnumbers n (.item ht hn)
  | mapping o entries ih =>
      obtain ⟨hdistinct, hvalues⟩ := distinct_mapping.mp hnames
      rw [toJson_mapping hdistinct, ofJson, ofJsonMembers_eq, sorted_unplaced_mapping]
      refine .mapping _ (by simp only [List.map_map]; rfl) ?_
      simp only [List.map_map, List.forall₂_map_left_iff, List.forall₂_map_right_iff, List.forall₂_same,
        List.mem_mergeSort]
      exact fun e he => ih e he (hvalues e he) fun n hn => hnumbers n (.value he hn)

/-! ### Writing what was read -/

theorem shownWhole?_eq_some_iff {n : Binary64} {i : Int} :
    shownWhole? n = some i ↔ n.toInt? = some i ∧ i.natAbs < 9000000000000000 := by
  rw [shownWhole?, Option.filter_eq_some_iff, decide_eq_true_eq]

/-- A number that is shown whole fits into the significand. -/
theorem shownWhole?_ofInt {i : Int} (h : i.natAbs < 9000000000000000) : shownWhole? (.ofInt i) = some i :=
  shownWhole?_eq_some_iff.mpr ⟨Binary64.toInt?_ofInt (h.trans (by decide)), h⟩

theorem toJson_ofJson_numberJson (n : Binary64) : (ofJson (numberJson n)).toJson = numberJson n := by
  cases hwhole : shownWhole? n with
  | some i =>
      have hi := (shownWhole?_eq_some_iff.mp hwhole).2
      simp only [numberJson, hwhole, ofJson, ofInt, toJson, shownWhole?_ofInt hi]
  | none =>
      cases hfinite : n.isFinite with
      | true => simp only [numberJson, hwhole, hfinite, ofJson, ofNumber, toJson, if_true]
      | false => simp [numberJson, hwhole, hfinite, ofJson, ofNull, toJson]

/-- **JSON is written again as it was read**, whatever the token it was written from. -/
theorem toJson_ofJson_toJson (t : Token) : (ofJson t.toJson).toJson = t.toJson := by
  induction t using Token.induct with
  | scalar t hscalar =>
      cases t with
      | number o n => exact toJson_ofJson_numberJson n
      | sequence | mapping => cases hscalar
      | _ => rfl
  | sequence o items ih =>
      rw [toJson, itemsJson_eq, ofJson, ofJsonItems_eq, ofItems, toJson, itemsJson_eq, List.map_map, List.map_map]
      exact congrArg Json.array (List.map_congr_left ih)
  | mapping o entries ih =>
      rw [toJson, ofJson, ofJsonMembers_eq, toJson, entriesJson_eq, List.map_map]
      have hkept : (Dictionary.ofEntries (entriesJson entries)).map
          (fun m => (m.1, (ofJson m.2).toJson)) = Dictionary.ofEntries (entriesJson entries) := by
        refine (List.map_congr_left fun m hm => ?_).trans (List.map_id _)
        obtain ⟨e, he, rfl⟩ := List.mem_map.mp (entriesJson_eq entries ▸ Dictionary.mem_of_mem_ofEntries hm)
        rw [ih e he, id]
      refine congrArg Json.object ?_
      exact (congrArg Dictionary.ofEntries hkept).trans (Dictionary.canonical_ofEntries _).ofEntries_eq

/-- **Tokens survive JSON.** If all names in the mappings of a token are distinct and all numbers in it are
whole with at most fifteen full digits, it comes back without places and with the entries of its mappings in
ascending order. The numbers that come back are the same; only a zero with a minus has lost it. What is
written once more is what was written before. -/
theorem ofJson_toJson (hnames : t.Distinct)
    (hnumbers : ∀ n, t.HasNumber n → ∃ i, n.toInt? = some i ∧ i.natAbs < 9000000000000000) :
    Agrees (fun m n => m.same n = true) (ofJson t.toJson) t.unplaced.sorted ∧
    ((∀ n, t.HasNumber n → ∃ i : Int, i.natAbs < 9000000000000000 ∧ n = .ofInt i) →
      ofJson t.toJson = t.unplaced.sorted) ∧
    (ofJson t.toJson).toJson = t.toJson := by
  refine ⟨agrees_ofJson_toJson hnames fun n hn => ?_, fun hexact => ?_, toJson_ofJson_toJson t⟩
  · obtain ⟨i, hi, hsmall⟩ := hnumbers n hn
    have hagain : (Binary64.ofInt i).toInt? = some i := Binary64.toInt?_ofInt (hsmall.trans (by decide))
    exact ⟨i, shownWhole?_eq_some_iff.mpr ⟨hi, hsmall⟩, Binary64.same_of_toInt? hagain hi⟩
  · refine eq_of_agrees (agrees_ofJson_toJson hnames fun n hn => ?_)
    obtain ⟨i, hsmall, rfl⟩ := hexact n hn
    exact ⟨i, shownWhole?_ofInt hsmall, rfl⟩

/-- Names that are not in order at two depths, collections without contents, and a number. -/
def nested (n : Binary64) : Token :=
  .mapping ⟨none, some 0⟩ [(⟨⟨none, some 0⟩, "steps"⟩, .ofItems [.ofPairs [("script", .ofText "make"),
    ("env", .ofPairs [])], .ofItems []]), (⟨⟨none, some 0⟩, "count"⟩, .number ⟨none, some 0⟩ n)]

/-- The same in order and without places. -/
def nestedInOrder (n : Binary64) : Token :=
  .ofPairs [("count", .ofNumber n), ("steps", .ofItems [.ofPairs [("env", .ofPairs []),
    ("script", .ofText "make")], .ofItems []])]

theorem sorted_unplaced_nested (n : Binary64) : (nested n).unplaced.sorted = nestedInOrder n := by
  have houter : "count" < "steps" := by decide
  have hinner : "env" < "script" := by decide
  simp only [nested, ofItems, ofPairs, sorted_unplaced_mapping, sorted_unplaced_sequence, mergeSort_pair, houter,
    hinner, List.mergeSort_nil, List.map_cons, List.map_nil]
  rfl

/-- A token from a file comes back in order, at both depths. -/
theorem ofJson_toJson_nested :
    (nested (.ofInt (-7))).Distinct ∧
      (∀ n, (nested (.ofInt (-7))).HasNumber n →
        ∃ i, n.toInt? = some i ∧ i.natAbs < 9000000000000000) ∧
      ofJson (nested (.ofInt (-7))).toJson = nestedInOrder (.ofInt (-7)) ∧
      (nestedInOrder (.ofInt (-7))).toJson = (nested (.ofInt (-7))).toJson := by
  have hnames : (nested (.ofInt (-7))).Distinct := by
    have hscalar {t : Token} (h : t.isScalar = true) : t.Distinct := distinct_of_isScalar h
    simp only [nested, ofItems, ofPairs, distinct_mapping, distinct_sequence, List.forall_mem_cons,
      List.map_cons, List.map_nil]
    exact ⟨by decide, ⟨⟨by decide, hscalar rfl, ⟨by decide, List.forall_mem_nil _⟩, List.forall_mem_nil _⟩,
      List.forall_mem_nil _, List.forall_mem_nil _⟩, hscalar rfl, List.forall_mem_nil _⟩
  have hexact : ∀ n, (nested (.ofInt (-7))).HasNumber n →
      ∃ i : Int, i.natAbs < 9000000000000000 ∧ n = .ofInt i := fun n hn =>
    ⟨-7, by decide, by simpa [nested, ofItems, ofPairs, ofText] using hn⟩
  have hnumbers : ∀ n, (nested (.ofInt (-7))).HasNumber n →
      ∃ i, n.toInt? = some i ∧ i.natAbs < 9000000000000000 := by
    intro n hn
    obtain ⟨i, hsmall, rfl⟩ := hexact n hn
    exact ⟨i, Binary64.toInt?_ofInt (hsmall.trans (by decide)), hsmall⟩
  obtain ⟨-, hequal, hagain⟩ := ofJson_toJson hnames hnumbers
  have hread := (hequal hexact).trans (sorted_unplaced_nested _)
  exact ⟨hnames, hnumbers, hread, hread ▸ hagain⟩

end Token
end PipelineExpansion.Template
