import PipelineExpansion.Pipeline.Parameters
import PipelineExpansion.Proofs.Expression.Operators
import PipelineExpansion.Proofs.Template.DistinctMappings
import PipelineExpansion.Proofs.Template.Token
import PipelineExpansion.Proofs.Template.Unplaced

/-!
# A value equals itself

Loose equality looks at what values hold, not at where they come from (`looselyEqual_unplaced`). It is
reflexive, with two exceptions. NaN equals nothing. And the entries of two mappings are compared by names without
regard to case, each with the first of that name on the other side: so where two names in a mapping differ
only in case, the second entry is compared with the first, even if the other side is the mapping itself.

A value is thus equal to itself when it holds no NaN and when the entries that one mapping has under names
that differ only in case have equal values. Both conditions are about all mappings and numbers in the value,
at whatever depth, and the proof is by recursion on the value.

## Main results

* `looselyEqual_self`: such a value equals itself.
* `equal_of_unplaced_eq`: it equals every value that holds the same, is among the allowed values if that
  is, and `eq` and `in` say so.
-/

namespace PipelineExpansion

open Template (Entry Key Origin unplacedEntries_eq unplacedEntry unplacedItems_eq)
open Template.Token (unplaced)

/-! ### What a value holds -/

/-- A token holds a number: it is one, or an item or a value in it holds it. -/
inductive Template.Token.HasNumber : Template.Token → Binary64 → Prop where
  | own {o : Origin} {n : Binary64} : (Template.Token.number o n).HasNumber n
  | item {o : Origin} {items : List Template.Token} {t : Template.Token} {n : Binary64}
      (hmem : t ∈ items) (h : t.HasNumber n) : (Template.Token.sequence o items).HasNumber n
  | value {o : Origin} {entries : List Entry} {e : Entry} {n : Binary64} (hmem : e ∈ entries)
      (h : e.2.HasNumber n) : (Template.Token.mapping o entries).HasNumber n

namespace Template.Token

variable {o : Origin} {n : Binary64}

@[simp] theorem not_hasNumber_null : ¬ (null o).HasNumber n := nofun

@[simp] theorem not_hasNumber_boolean {b : Bool} : ¬ (boolean o b).HasNumber n := nofun

@[simp] theorem not_hasNumber_text {s : String} : ¬ (text o s).HasNumber n := nofun

@[simp] theorem hasNumber_number {m : Binary64} : (number o m).HasNumber n ↔ n = m := by
  constructor
  · rintro ⟨⟩
    rfl
  · rintro rfl
    exact .own

@[simp] theorem hasNumber_sequence {items : List Template.Token} :
    (sequence o items).HasNumber n ↔ ∃ t ∈ items, t.HasNumber n := by
  constructor
  · rintro (_ | ⟨hmem, h⟩)
    exact ⟨_, hmem, h⟩
  · rintro ⟨t, hmem, h⟩
    exact .item hmem h

@[simp] theorem hasNumber_mapping {entries : List Entry} :
    (mapping o entries).HasNumber n ↔ ∃ e ∈ entries, e.2.HasNumber n := by
  constructor
  · rintro (_ | _ | ⟨hmem, h⟩)
    exact ⟨_, hmem, h⟩
  · rintro ⟨e, hmem, h⟩
    exact .value hmem h

end Template.Token

theorem Template.Token.lookup?_unplaced (t : Template.Token) (name : String) :
    t.unplaced.lookup? name = (t.lookup? name).map unplaced := by
  unfold lookup?
  rw [entries?_unplaced]
  cases t.entries? with
  | none => rfl
  | some entries =>
      simp only [Option.map_some, Option.bind_eq_bind, Option.bind_some, List.find?_map,
        Option.map_map]
      rfl

namespace Expression

/-! ### Places do not matter -/

mutual

/-- Loose equality does not see the places of values. -/
theorem looselyEqual_unplaced (left right : Value) :
    looselyEqual left.unplaced right.unplaced = looselyEqual left right := by
  match left with
  | .null o => cases right <;> rfl
  | .boolean o b => cases right <;> rfl
  | .number o n => cases right <;> rfl
  | .text o s => cases right <;> rfl
  | .sequence o items =>
      cases right with
      | sequence o' others =>
          simp only [unplaced, Template.Token.ofItems, unplacedItems_eq, looselyEqual,
            List.length_map, itemsEqual_unplaced]
      | _ => rfl
  | .mapping o entries =>
      cases right with
      | mapping o' others =>
          have hentries := entriesEqual_unplaced entries (.mapping o' others)
          simp only [unplaced, unplacedEntries_eq] at hentries
          simp only [unplaced, unplacedEntries_eq, looselyEqual, List.length_map, hentries]
      | _ => rfl

theorem itemsEqual_unplaced (items others : List Value) :
    itemsEqual (items.map unplaced) (others.map unplaced) = itemsEqual items others := by
  match items, others with
  | a :: as, b :: bs =>
      simp only [List.map_cons, itemsEqual, looselyEqual_unplaced, itemsEqual_unplaced]
  | [], _ => cases others <;> rfl
  | _ :: _, [] => rfl

theorem entriesEqual_unplaced (entries : List (Key × Value)) (other : Value) :
    entriesEqual (entries.map unplacedEntry) other.unplaced = entriesEqual entries other := by
  match entries with
  | [] => rfl
  | (k, v) :: rest =>
      rw [List.map_cons, unplacedEntry, entriesEqual, entriesEqual, entriesEqual_unplaced,
        Template.Token.lookup?_unplaced]
      cases other.lookup? k.name with
      | none => rfl
      | some w => simp only [Option.map_some, looselyEqual_unplaced]

end

/-! ### Reflexivity -/

/-- Entries under names that differ only in case have equal values: the later one, as equality is not
symmetric, equals the earlier one. -/
def AgreeOnNames (entries : List Entry) : Prop :=
  entries.Pairwise fun a b => Text.sameName a.1.name b.1.name = true → looselyEqual b.2 a.2 = true

theorem same_self {n : Binary64} (h : n ≠ .nan) : n.same n = true := by
  cases n with
  | nan => exact absurd rfl h
  | infinite negative => simp [Binary64.same, Binary64.order]
  | finite negative significand exponent =>
      have hself (x : Int) : compare x x = .eq := Std.ReflCmp.compare_self
      exact decide_eq_true (congrArg some (hself _))

theorem itemsEqual_self {items : List Value} (h : ∀ v ∈ items, looselyEqual v v = true) :
    itemsEqual items items = true := by
  induction items with
  | nil => rfl
  | cons v rest ih =>
      obtain ⟨hv, hrest⟩ := List.forall_mem_cons.mp h
      rw [itemsEqual, hv, ih hrest]
      rfl

/-- Every entry has to equal what is found under its name. -/
theorem entriesEqual_iff {entries : List Entry} {other : Value} :
    entriesEqual entries other = true ↔
      ∀ e ∈ entries, ∃ w, other.lookup? e.1.name = some w ∧ looselyEqual e.2 w = true := by
  induction entries with
  | nil => simp [entriesEqual]
  | cons e rest ih =>
      obtain ⟨k, v⟩ := e
      rw [entriesEqual, Bool.and_eq_true, ih, List.forall_mem_cons]
      refine and_congr_left fun _ => ?_
      cases other.lookup? k.name <;> simp

/-- What is found under the name of an entry is its own value, or that of an entry before it. -/
theorem AgreeOnNames.lookup? {entries : List Entry} (h : AgreeOnNames entries)
    (hself : ∀ e ∈ entries, looselyEqual e.2 e.2 = true) (o : Origin) :
    ∀ e ∈ entries, ∃ w, (Template.Token.mapping o entries).lookup? e.1.name = some w ∧
      looselyEqual e.2 w = true := by
  intro e he
  have hsome : (entries.find? fun other => Text.sameName other.1.name e.1.name).isSome :=
    List.find?_isSome.mpr ⟨e, he, by simp⟩
  obtain ⟨first, hfirst⟩ := Option.isSome_iff_exists.mp hsome
  refine ⟨first.2, congrArg (Option.map Prod.snd) hfirst, ?_⟩
  obtain ⟨hname, before, behind, rfl, hbefore⟩ := List.find?_eq_some_iff_append.mp hfirst
  rcases List.mem_append.mp he with hmem | hmem
  · exact absurd (hbefore e hmem) (by simp)
  · rcases List.mem_cons.mp hmem with rfl | hmem
    · exact hself e he
    · exact (List.pairwise_cons.mp (List.pairwise_append.mp h).2.1).1 e hmem hname

/-- **A value equals itself** if it holds no NaN and entries under names that differ only in case agree. -/
theorem looselyEqual_self {t : Value} (hnan : ∀ n, t.HasNumber n → n ≠ .nan)
    (hnames : ∀ entries, t.HasMapping entries → AgreeOnNames entries) : looselyEqual t t = true := by
  induction t using Template.Token.induct with
  | scalar t hscalar =>
      cases t with
      | null o => rfl
      | boolean o b => simp [looselyEqual, Template.Token.truthy]
      | number o n => exact same_self (hnan n .own)
      | text o s => simp [looselyEqual]
      | sequence | mapping => cases hscalar
  | sequence o items ih =>
      have hitems : ∀ v ∈ items, looselyEqual v v = true := fun v hv =>
        ih v hv (fun n hn => hnan n (.item hv hn)) fun entries h => hnames entries (.item hv h)
      simp [looselyEqual, itemsEqual_self hitems]
  | mapping o entries ih =>
      have hvalues : ∀ e ∈ entries, looselyEqual e.2 e.2 = true := fun e he =>
        ih e he (fun n hn => hnan n (.value he hn)) fun more h => hnames more (.value he h)
      have hequal := entriesEqual_iff.mpr ((hnames entries .own).lookup? hvalues o)
      simp [looselyEqual, hequal]

/-- Values that hold the same are equal if one of them equals itself. -/
theorem looselyEqual_of_unplaced_eq {t u : Value} (hself : looselyEqual t t = true)
    (h : u.unplaced = t.unplaced) : looselyEqual t u = true := by
  rw [← looselyEqual_unplaced, h, looselyEqual_unplaced, hself]

/-- **What holds the same is equal**, wherever it comes from, if there is no NaN in it and entries under names
that differ only in case agree: a value for a parameter is not refused where the list of allowed values has
one that holds the same, `eq` is true of the two, and `in` is true of a value and a list that has it. -/
theorem equal_of_unplaced_eq {t u : Value} (hnan : ∀ n, t.HasNumber n → n ≠ .nan)
    (hnames : ∀ entries, t.HasMapping entries → AgreeOnNames entries) (h : u.unplaced = t.unplaced) :
    looselyEqual t t = true ∧ looselyEqual t u = true ∧
    (∀ (p : Pipeline.Parameter) (name : String) (allowed : List Value), p.values = some allowed →
      t ∈ allowed → p.check name u = .ok ()) ∧
    (∀ f, Text.sameName f "eq" = true → Function.call f [t, u] = .ok (.ofBool true)) ∧
    (∀ f others, Text.sameName f "in" = true → u ∈ others →
      Function.call f (t :: others) = .ok (.ofBool true)) := by
  have hself := looselyEqual_self hnan hnames
  have hequal := looselyEqual_of_unplaced_eq hself h
  refine ⟨hself, hequal, fun p name allowed hvalues hmem => ?_, fun f hf => ?_,
    fun f others hf hmem => ?_⟩
  · have hany : allowed.any (looselyEqual · u) = true := List.any_eq_true.mpr ⟨t, hmem, hequal⟩
    simp [Pipeline.Parameter.check, hvalues, hany]
  · rw [call_eq_apply .eq hf rfl]
    change (.ok (Function.truth (looselyEqual t u)) : Evaluation) = _
    rw [hequal]
    rfl
  · have hany : others.any (looselyEqual t) = true := List.any_eq_true.mpr ⟨u, hmem, hequal⟩
    rw [call_eq_apply .isIn hf rfl]
    change (.ok (Function.truth (others.any (looselyEqual t))) : Evaluation) = _
    rw [hany]
    rfl

/-- A list, and a mapping with two names that differ only in case; so do the texts under them. -/
def agreeing (o : Origin) : Value :=
  .mapping o [(⟨o, "a"⟩, .text o "x"), (⟨o, "A"⟩, .text o "X"),
    (⟨o, "list"⟩, .sequence o [.boolean o true, .null o])]

/-- The one comes from the first file, the other from nowhere. -/
theorem equal_of_unplaced_eq_agreeing :
    looselyEqual (agreeing .unknown) (agreeing ⟨none, some 0⟩) = true ∧
      Function.call "In" [agreeing .unknown, .ofText "a", agreeing ⟨none, some 0⟩] =
        .ok (.ofBool true) := by
  have htexts : looselyEqual (.text .unknown "X") (.text .unknown "x") = true := by decide +kernel
  have hnan : ∀ n, (agreeing .unknown).HasNumber n → n ≠ .nan := by simp [agreeing]
  have hown : AgreeOnNames [(⟨.unknown, "a"⟩, .text .unknown "x"), (⟨.unknown, "A"⟩, .text .unknown "X"),
      (⟨.unknown, "list"⟩, .sequence .unknown [.boolean .unknown true, .null .unknown])] := by
    have hsmall : Text.fold "a" ≠ Text.fold "list" := by decide
    have hcapital : Text.fold "A" ≠ Text.fold "list" := by decide
    simp [AgreeOnNames, htexts, hsmall, hcapital]
  have hnames : ∀ entries, (agreeing .unknown).HasMapping entries → AgreeOnNames entries := by
    have hscalar {t : Value} (h : t.isScalar = true) (more : List Entry) :
        t.HasMapping more → AgreeOnNames more :=
      fun hmore => absurd hmore (Template.Token.not_hasMapping_of_isScalar h more)
    simp only [agreeing, Template.Token.forall_hasMapping_mapping, List.forall_mem_cons,
      Template.Token.forall_hasMapping_sequence]
    exact ⟨hown, hscalar rfl, hscalar rfl, ⟨hscalar rfl, hscalar rfl, nofun⟩, nofun⟩
  obtain ⟨-, hequal, -, -, hin⟩ := equal_of_unplaced_eq hnan hnames
    (u := agreeing ⟨none, some 0⟩) rfl
  exact ⟨hequal, hin "In" _ (by decide) (by simp)⟩

/-- Two names that differ only in case, and other values under them. -/
def disagreeing : Value := .ofPairs [("a", .ofText "x"), ("A", .ofText "y")]

/-- The second entry is compared with the first. -/
theorem disagreeing_differsFromItself :
    ¬ ∀ t : Value, (∀ n, ¬ t.HasNumber n) → t.Distinct → looselyEqual t t = true := by
  intro hself
  have hnone : ∀ n, ¬ disagreeing.HasNumber n := by
    simp [disagreeing, Template.Token.ofPairs, Template.Token.ofText]
  have hdistinct : disagreeing.Distinct := by
    refine Template.Token.distinct_mapping.mpr ⟨by decide, List.forall_mem_cons.mpr ⟨?_, ?_⟩⟩
    · exact Template.Token.distinct_of_isScalar rfl
    · exact List.forall_mem_singleton.mpr (Template.Token.distinct_of_isScalar rfl)
  have hdiffers : looselyEqual disagreeing disagreeing = false := by decide +kernel
  rw [hself disagreeing hnone hdistinct] at hdiffers
  cases hdiffers

end Expression
end PipelineExpansion
