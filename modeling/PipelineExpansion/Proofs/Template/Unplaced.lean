import PipelineExpansion.Proofs.Outcome
import PipelineExpansion.Template.Token

/-!
# What a token is read as does not depend on its place

`Token.unplaced` takes the places out of a token. A fault names the place of what it is about, but where
nothing is at fault the same is returned without places. So the lemmas compare what is returned, if
anything is (`Except.toOption`).

## Main results

* `toOption_expectText_unplaced` and the like: a token is read as what it is without places.
-/

namespace PipelineExpansion.Template

mutual

/-- A token without places. -/
def Token.unplaced : Token → Token
  | .null _ => .ofNull
  | .boolean _ b => .ofBool b
  | .number _ n => .ofNumber n
  | .text _ s => .ofText s
  | .sequence _ items => .ofItems (unplacedItems items)
  | .mapping _ entries => .mapping .unknown (unplacedEntries entries)

/-- Items without places. -/
def unplacedItems : List Token → List Token
  | [] => []
  | t :: rest => t.unplaced :: unplacedItems rest

/-- Entries without places. -/
def unplacedEntries : List (Key × Token) → List (Key × Token)
  | [] => []
  | (k, t) :: rest => (⟨.unknown, k.name⟩, t.unplaced) :: unplacedEntries rest

end

/-- An entry without places. -/
def unplacedEntry (e : Entry) : Entry := (⟨.unknown, e.1.name⟩, e.2.unplaced)

theorem unplacedItems_eq (items : List Token) : unplacedItems items = items.map Token.unplaced := by
  induction items with
  | nil => rfl
  | cons t rest ih => exact congrArg (t.unplaced :: ·) ih

theorem unplacedEntries_eq (entries : List Entry) :
    unplacedEntries entries = entries.map unplacedEntry := by
  induction entries with
  | nil => rfl
  | cons e rest ih => exact congrArg (unplacedEntry e :: ·) ih

namespace Token

@[simp] theorem isNull_unplaced (t : Token) : t.unplaced.isNull = t.isNull := by
  cases t <;> rfl

@[simp] theorem text?_unplaced (t : Token) : t.unplaced.text? = t.text? := by
  cases t <;> rfl

@[simp] theorem number?_unplaced (t : Token) : t.unplaced.number? = t.number? := by
  cases t <;> rfl

@[simp] theorem display?_unplaced (t : Token) : t.unplaced.display? = t.display? := by
  cases t <;> rfl

@[simp] theorem entries?_unplaced (t : Token) :
    t.unplaced.entries? = t.entries?.map (·.map unplacedEntry) := by
  cases t with
  | mapping o entries => exact congrArg some (unplacedEntries_eq entries)
  | _ => rfl

/-! ### What is returned -/

theorem toOption_expectMapping (t : Token) (what : String) :
    (t.expectMapping what).toOption = t.entries? := by
  unfold expectMapping
  cases t.entries? <;> rfl

theorem toOption_expectText (t : Token) (what : String) :
    (t.expectText what).toOption = t.display? := by
  unfold expectText
  cases t.display? <;> rfl

theorem toOption_expectText_unplaced (t : Token) (what : String) :
    (t.unplaced.expectText what).toOption = (t.expectText what).toOption := by
  rw [toOption_expectText, toOption_expectText, display?_unplaced]

theorem toOption_expectBool_unplaced (t : Token) (what : String) :
    (t.unplaced.expectBool what).toOption = (t.expectBool what).toOption := by
  cases t with
  | text o s =>
      change (expectBool (.ofText s) what).toOption = _
      unfold expectBool ofText
      dsimp only
      split
      · rfl
      · split <;> rfl
  | _ => rfl

theorem toOption_expectInt_unplaced (t : Token) (what : String) :
    (t.unplaced.expectInt what).toOption = (t.expectInt what).toOption := by
  unfold expectInt
  rw [number?_unplaced, isNull_unplaced]
  cases t.number? with
  | none => rfl
  | some n =>
      dsimp only
      split <;> rfl

theorem toOption_expectTexts_unplaced (t : Token) (what : String) :
    (t.unplaced.expectTexts what).toOption = (t.expectTexts what).toOption := by
  cases t with
  | sequence o items =>
      change ((unplacedItems items).mapM fun t : Token => t.expectText what).toOption = _
      rw [unplacedItems_eq]
      exact toOption_mapM_map (fun t => toOption_expectText_unplaced t what) items
  | _ => rfl

theorem toOption_expectTextMap_unplaced (t : Token) (what : String) :
    (t.unplaced.expectTextMap what).toOption = (t.expectTextMap what).toOption := by
  unfold expectTextMap
  rw [isNull_unplaced]
  split
  · rfl
  · rw [toOption_bind, toOption_bind, toOption_expectMapping, toOption_expectMapping,
      entries?_unplaced, Option.bind_map]
    refine congrArg _ (funext fun entries => toOption_mapM_map (fun e => ?_) entries)
    rw [toOption_bind, toOption_bind, unplacedEntry, toOption_expectText_unplaced]

end Token
end PipelineExpansion.Template
