import PipelineExpansion.Proofs.Outcome
import PipelineExpansion.Proofs.Template.Token
import PipelineExpansion.Proofs.Template.Unplaced
import PipelineExpansion.Template.Schema
import PipelineExpansion.Template.Token.Load

/-!
# The numbers of files in tokens

Every token carries the number that its file has in a load, and so do the keys of mappings. The number
is a label: nothing is decided by it. `Token.bare` takes it away, and what is asked of a token is
answered in the same way without it. Where the answer holds tokens, those are the ones that
were there before, without their numbers.

So each lemma has one of two shapes: `f t.bare = f t`, or `f t.bare = bare <$> f t`. They are stated for
everything that is asked of a token in this library, and are simplification rules.

## Main results

* `bare_ofText?`: the number that a document is read with is all that tells its tokens apart from
  those that it is read as with another.
-/

namespace PipelineExpansion.Template

/-! ### Results that are turned into others -/

@[simp] theorem map_ok {ε α β : Type} (f : α → β) (a : α) :
    f <$> (.ok a : Except ε α) = .ok (f a) := rfl

@[simp] theorem map_error {ε α β : Type} (f : α → β) (e : ε) :
    f <$> (.error e : Except ε α) = .error e := rfl

/-! ### Taking numbers away -/

/-- An origin without the number of the file. -/
def Origin.bare (o : Origin) : Origin := { o with file := none }

/-- A key without the number of its file. -/
def Key.bare (k : Key) : Key := { k with origin := k.origin.bare }

mutual

/-- A token without the numbers of files. -/
def Token.bare : Token → Token
  | .null o => .null o.bare
  | .boolean o b => .boolean o.bare b
  | .number o n => .number o.bare n
  | .text o s => .text o.bare s
  | .sequence o items => .sequence o.bare (bareItems items)
  | .mapping o entries => .mapping o.bare (bareEntries entries)

/-- Items without the numbers of files. -/
def bareItems : List Token → List Token
  | [] => []
  | t :: rest => t.bare :: bareItems rest

/-- Entries without the numbers of files. -/
def bareEntries : List (Key × Token) → List (Key × Token)
  | [] => []
  | (k, t) :: rest => (k.bare, t.bare) :: bareEntries rest

end

/-- An entry without the numbers of files. -/
def bareEntry (e : Entry) : Entry := (e.1.bare, e.2.bare)

variable {t : Token} {e : Entry} {α β σ : Type}

@[simp] theorem bareItems_eq (items : List Token) : bareItems items = items.map Token.bare := by
  induction items with
  | nil => rfl
  | cons t rest ih => exact congrArg (t.bare :: ·) ih

@[simp] theorem bareEntries_eq (entries : List Entry) :
    bareEntries entries = entries.map bareEntry := by
  induction entries with
  | nil => rfl
  | cons e rest ih => exact congrArg (bareEntry e :: ·) ih

@[simp] theorem Token.bare_sequence (o : Origin) (items : List Token) :
    (Token.sequence o items).bare = .sequence o.bare (items.map bare) := by
  rw [← bareItems_eq, bare]

@[simp] theorem Token.bare_mapping (o : Origin) (entries : List Entry) :
    (Token.mapping o entries).bare = .mapping o.bare (entries.map bareEntry) := by
  rw [← bareEntries_eq, bare]

@[simp] theorem Origin.span_bare (o : Origin) : o.bare.span = o.span := rfl

@[simp] theorem Key.name_bare (k : Key) : k.bare.name = k.name := rfl

@[simp] theorem Key.origin_bare (k : Key) : k.bare.origin = k.origin.bare := rfl

@[simp] theorem Key.fault_bare (k : Key) (message : String) :
    k.bare.fault message = k.fault message := rfl

@[simp] theorem fst_bareEntry (e : Entry) : (bareEntry e).1 = e.1.bare := rfl

@[simp] theorem snd_bareEntry (e : Entry) : (bareEntry e).2 = e.2.bare := rfl

theorem bareEntry_mk (k : Key) (t : Token) : bareEntry (k, t) = (k.bare, t.bare) := rfl

namespace Token

@[simp] theorem origin_bare (t : Token) : t.bare.origin = t.origin.bare := by
  cases t <;> rfl

@[simp] theorem span_bare (t : Token) : t.bare.span = t.span := by
  cases t <;> rfl

@[simp] theorem fault_bare (t : Token) (message : String) : t.bare.fault message = t.fault message := by
  rw [fault, fault, span_bare]

theorem unplaced_bare (t : Token) : t.bare.unplaced = t.unplaced := by
  induction t using induct with
  | scalar t hscalar =>
      cases t with
      | sequence | mapping => cases hscalar
      | _ => rfl
  | sequence o items ih =>
      simp only [bare_sequence, unplaced, unplacedItems_eq, List.map_map]
      exact congrArg _ (List.map_congr_left ih)
  | mapping o entries ih =>
      simp only [bare_mapping, unplaced, unplacedEntries_eq, List.map_map]
      refine congrArg _ (List.map_congr_left fun e he => ?_)
      exact congrArg (Prod.mk _) (ih e he)

/-! ### What a token is made from -/

@[simp] theorem bare_ofNull : ofNull.bare = ofNull := rfl

@[simp] theorem bare_ofBool (b : Bool) : (ofBool b).bare = ofBool b := rfl

@[simp] theorem bare_ofInt (n : Int) : (ofInt n).bare = ofInt n := rfl

@[simp] theorem bare_ofText (s : String) : (ofText s).bare = ofText s := rfl

@[simp] theorem bare_ofItems (items : List Token) :
    (ofItems items).bare = ofItems (items.map bare) := bare_sequence _ _

@[simp] theorem bare_ofPairs (pairs : List (String × Token)) :
    (ofPairs pairs).bare = ofPairs (pairs.map fun p => (p.1, p.2.bare)) := by
  simp only [ofPairs, bare_mapping, List.map_map]
  rfl

@[simp] theorem bare_withOrigin (t : Token) (o : Origin) :
    (t.withOrigin o).bare = t.bare.withOrigin o.bare := by
  cases t <;> simp [withOrigin, bare]

@[simp] theorem bare_locatedAt (t other : Token) :
    (t.locatedAt other).bare = t.bare.locatedAt other.bare := by
  unfold locatedAt
  rw [span_bare]
  split
  · rw [bare_withOrigin, origin_bare]
  · rfl

/-! ### What a token is asked for -/

@[simp] theorem isNull_bare (t : Token) : t.bare.isNull = t.isNull := by
  cases t <;> rfl

@[simp] theorem text?_bare (t : Token) : t.bare.text? = t.text? := by
  cases t <;> rfl

@[simp] theorem kindName_bare (t : Token) : t.bare.kindName = t.kindName := by
  cases t <;> rfl

@[simp] theorem isScalar_bare (t : Token) : t.bare.isScalar = t.isScalar := by
  cases t <;> rfl

@[simp] theorem truthy_bare (t : Token) : t.bare.truthy = t.truthy := by
  cases t <;> rfl

@[simp] theorem number?_bare (t : Token) : t.bare.number? = t.number? := by
  cases t <;> rfl

@[simp] theorem display?_bare (t : Token) : t.bare.display? = t.display? := by
  cases t <;> rfl

@[simp] theorem items?_bare (t : Token) : t.bare.items? = t.items?.map (·.map bare) := by
  cases t <;> simp [bare, items?]

@[simp] theorem entries?_bare (t : Token) : t.bare.entries? = t.entries?.map (·.map bareEntry) := by
  cases t <;> simp [bare, entries?]

@[simp] theorem get?_bare (t : Token) (name : String) : t.bare.get? name = (t.get? name).map bare := by
  simp only [get?, entries?_bare, Option.bind_eq_bind, Option.bind_map, Option.map_bind]
  congr 1
  funext entries
  simp only [List.find?_map, Option.map_map, Function.comp_def]
  rfl

@[simp] theorem lookup?_bare (t : Token) (name : String) :
    t.bare.lookup? name = (t.lookup? name).map bare := by
  simp only [lookup?, entries?_bare, Option.bind_eq_bind, Option.bind_map, Option.map_bind]
  congr 1
  funext entries
  simp only [List.find?_map, Option.map_map, Function.comp_def]
  rfl

/-! ### JSON -/

mutual

@[simp] theorem toJson_bare (t : Token) : t.bare.toJson = t.toJson := by
  match t with
  | .null o | .boolean o b | .number o n | .text o s => rfl
  | .sequence o items => 
      rw [bare_sequence, toJson, toJson, itemsJson_bare]
  | .mapping o entries =>
      rw [bare_mapping, toJson, toJson, entriesJson_bare]

theorem itemsJson_bare (items : List Token) : itemsJson (items.map bare) = itemsJson items := by
  match items with
  | [] => rfl
  | t :: rest => rw [List.map_cons, itemsJson, itemsJson, toJson_bare, itemsJson_bare]

theorem entriesJson_bare (entries : List (Key × Token)) :
    entriesJson (entries.map bareEntry) = entriesJson entries := by
  match entries with
  | [] => rfl
  | (k, t) :: rest =>
      rw [List.map_cons, bareEntry_mk, entriesJson, entriesJson, toJson_bare, entriesJson_bare,
        Key.name_bare]

end

/-! ### What a token is expected to be -/

@[simp] theorem expectMapping_bare (t : Token) (what : String) :
    t.bare.expectMapping what = List.map bareEntry <$> t.expectMapping what := by
  simp only [expectMapping, entries?_bare, fault_bare, kindName_bare]
  cases t.entries? <;> rfl

@[simp] theorem expectSequence_bare (t : Token) (what : String) :
    t.bare.expectSequence what = List.map bare <$> t.expectSequence what := by
  simp only [expectSequence, items?_bare, fault_bare, kindName_bare]
  cases t.items? <;> rfl

@[simp] theorem expectText_bare (t : Token) (what : String) :
    t.bare.expectText what = t.expectText what := by
  simp only [expectText, display?_bare, fault_bare, kindName_bare]

@[simp] theorem expectNonEmpty_bare (t : Token) (what : String) :
    t.bare.expectNonEmpty what = t.expectNonEmpty what := by
  simp only [expectNonEmpty, expectText_bare, fault_bare]

@[simp] theorem expectBool_bare (t : Token) (what : String) :
    t.bare.expectBool what = t.expectBool what := by
  cases t <;> rfl

@[simp] theorem expectInt_bare (t : Token) (what : String) :
    t.bare.expectInt what = t.expectInt what := by
  simp only [expectInt, number?_bare, isNull_bare, fault_bare]

@[simp] theorem expectTexts_bare (t : Token) (what : String) :
    t.bare.expectTexts what = t.expectTexts what := by
  cases t with
  | sequence o items => simp [expectTexts, List.mapM_map, Function.comp_def]
  | mapping o entries => exact congrArg (Except.map ([·])) (expectText_bare (.mapping o entries) what)
  | _ => rfl

@[simp] theorem expectTextMap_bare (t : Token) (what : String) :
    t.bare.expectTextMap what = t.expectTextMap what := by
  simp [expectTextMap, List.mapM_map, Function.comp_def]

end Token

/-! ### Schemas -/

@[simp] theorem ValueKind.admits_bare (kind : ValueKind) (t : Token) :
    kind.admits t.bare = kind.admits t := by
  cases kind <;> simp [admits]

@[simp] theorem Definition.checkValue_bare (d : Definition) (name : String) (t : Token) :
    d.checkValue name t.bare = d.checkValue name t := by
  simp only [checkValue, Token.isNull_bare, Token.text?_bare, ValueKind.admits_bare,
    Token.fault_bare, Token.kindName_bare]

@[simp] theorem Definition.checkEntry_bare (d : Definition) (e : Entry) :
    d.checkEntry (bareEntry e) = d.checkEntry e := by
  simp only [checkEntry, fst_bareEntry, snd_bareEntry, Key.name_bare, Key.origin_bare,
    Origin.span_bare, checkValue_bare]

@[simp] theorem Schema.validate_bare (s : Schema) (definition : String) (root : Token) :
    s.validate definition root.bare = s.validate definition root := by
  have hentries (d : Definition) (entries : List Entry) :
      (entries.map bareEntry).forM d.checkEntry = entries.forM d.checkEntry := by
    induction entries with
    | nil => rfl
    | cons e rest ih => simp_all
  simp only [validate, Token.entries?_bare, Token.fault_bare, Token.kindName_bare]
  cases s.definitions.find? definition with
  | none => rfl
  | some d => cases root.entries? <;> simp [hentries]

/-! ### Documents -/

open Yaml (Spanned)

theorem bare_ofScalar (file : Option Nat) (span : Option Yaml.Span) (s : String) (plain : Bool) :
    (Token.ofScalar ⟨span, file⟩ s plain).bare = Token.ofScalar ⟨span, none⟩ s plain := by
  unfold Token.ofScalar
  repeat' split
  all_goals rfl

mutual

/-- Reading with a number is reading without one, up to the number. -/
theorem build_none (file : Option Nat) (n : Nat) (first : Spanned) (rest : List Spanned) :
    build none n first rest = (fun r => (r.1.bare, r.2)) <$> build file n first rest := by
  match n with
  | 0 => rfl
  | n + 1 =>
      unfold build
      dsimp only
      split
      · exact congrArg (fun t => Except.ok (t, rest)) (bare_ofScalar file _ _ _).symm
      · have hitems := buildItems_none file n first.span [] rest
        rw [List.map_nil] at hitems
        simp only [hitems, bind_map_left, map_bind, map_pure, Token.bare_sequence]
        rfl
      · have hentries := buildEntries_none file n first.span [] rest
        rw [List.map_nil] at hentries
        simp only [hentries, bind_map_left, map_bind, map_pure, Token.bare_mapping]
        rfl
      · rfl

theorem buildItems_none (file : Option Nat) (n : Nat) (span : Yaml.Span) (items : List Token)
    (rest : List Spanned) :
    buildItems none n span (items.map Token.bare) rest =
      (fun r => (r.1.map Token.bare, r.2)) <$> buildItems file n span items rest := by
  match n, rest with
  | 0, _ | _ + 1, [] => rfl
  | n + 1, next :: rest =>
      unfold buildItems
      split
      · exact congrArg (fun items => Except.ok (items, rest)) List.map_reverse.symm
      · have hitems (item : Token) (rest : List Spanned) :=
          buildItems_none file n span (item :: items) rest
        simp only [List.map_cons] at hitems
        simp only [build_none file n next rest, bind_map_left, map_bind, hitems]

theorem buildEntries_none (file : Option Nat) (n : Nat) (span : Yaml.Span) (entries : List Entry)
    (rest : List Spanned) :
    buildEntries none n span (entries.map bareEntry) rest =
      (fun r => (r.1.map bareEntry, r.2)) <$> buildEntries file n span entries rest := by
  match n, rest with
  | 0, _ | _ + 1, [] => rfl
  | n + 1, next :: rest =>
      unfold buildEntries
      split
      · exact congrArg (fun entries => Except.ok (entries, rest)) List.map_reverse.symm
      · next name _ _ =>
        have hsame : (entries.map bareEntry).any (fun (k, _) => k.name = name) =
            entries.any fun (k, _) => k.name = name := by
          rw [List.any_map]
          rfl
        rw [hsame]
        split
        · rfl
        · split
          · rfl
          · next first rest =>
            have hentries (e : Entry) (rest : List Spanned) :=
              buildEntries_none file n span (e :: entries) rest
            simp only [List.map_cons] at hentries
            simp only [build_none file n first rest, bind_map_left, map_bind, ← hentries]
            rfl
      · rfl

end

theorem ofEvents?_none (file : Option Nat) (events : List Spanned) :
    Token.ofEvents? none events = Token.bare <$> Token.ofEvents? file events := by
  cases events with
  | nil => rfl
  | cons first rest =>
      unfold Token.ofEvents?
      simp only [build_none file, bind_map_left, map_bind, map_pure]

/-- **The number that a document is read with makes no other difference.** -/
theorem bare_ofText? (file file' : Option Nat) (source : String) :
    Token.bare <$> Token.ofText? file source = Token.bare <$> Token.ofText? file' source := by
  simp only [Token.ofText?, map_bind, ← ofEvents?_none]

end PipelineExpansion.Template
