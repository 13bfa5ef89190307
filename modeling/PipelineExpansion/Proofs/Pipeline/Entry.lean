import PipelineExpansion.Pipeline.Steps
import PipelineExpansion.Proofs.Dictionary
import PipelineExpansion.Proofs.Template.Resolve
import PipelineExpansion.Proofs.Template.Token

/-!
# Entries that were written

What is composed is written as pairs of names and tokens, one for each property that is there. A
reader takes the properties one after another into what it has so far. `Leads read a pairs b` says
that it comes from `a` to `b` by them, without a fault and without reading a file. A property that
may be left out leads from the state without a value to the state with the value that was written
(`leads_field`), so that what was written is followed property by property.
-/

namespace PipelineExpansion.Pipeline

open Template (Entry Resolve Token)

variable {m : Type → Type} [Monad m] {α β : Type} {read : α → Entry → m α}

/-- An entry that was not read from a file. -/
def madeEntry (p : String × Token) : Entry := (⟨.unknown, p.1⟩, p.2)

theorem entries?_ofPairs (pairs : List (String × Token)) :
    (Token.ofPairs pairs).entries? = some (pairs.map madeEntry) := rfl

/-- A reader comes from `a` to `b` by the entries of some pairs. -/
def Leads (read : α → Entry → m α) (a : α) (pairs : List (String × Token)) (b : α) : Prop :=
  (pairs.map madeEntry).foldlM read a = pure b

namespace Leads

theorem nil (a : α) : Leads read a [] a := rfl

theorem cons [LawfulMonad m] {a b c : α} {p : String × Token} {pairs : List (String × Token)}
    (h : read a (madeEntry p) = pure b) (h' : Leads read b pairs c) :
    Leads read a (p :: pairs) c := by
  rw [Leads, List.map_cons, List.foldlM_cons, h, pure_bind]
  exact h'

theorem single [LawfulMonad m] {a b : α} {p : String × Token} (h : read a (madeEntry p) = pure b) :
    Leads read a [p] b :=
  cons h (nil b)

theorem append [LawfulMonad m] {a b c : α} {first second : List (String × Token)}
    (h : Leads read a first b) (h' : Leads read b second c) : Leads read a (first ++ second) c := by
  rw [Leads, List.map_append, List.foldlM_append, h, pure_bind]
  exact h'

end Leads

/-- Entries that are left out when there is nothing to say. -/
theorem Leads.unless [LawfulMonad m] {a b : α} {p : Prop} [Decidable p] {name : String} {t : Token}
    (hleft : p → b = a) (hread : ¬ p → read a (madeEntry (name, t)) = pure b) :
    Leads read a (if p then [] else [(name, t)]) b := by
  split
  · next hp =>
    rw [hleft hp]
    exact .nil a
  · next hp => exact .single (hread hp)

/-- A property that may be left out. `set` puts its value in the place that is for it, which was
empty before. -/
theorem leads_field [LawfulMonad m] {a b : α} {name : String} {token : β → Token}
    {value : Option β} (set : α → Option β → α) (hnone : set a none = a)
    (hread : ∀ x, value = some x → read a (madeEntry (name, token x)) = pure (set a (some x)))
    (hset : set a value = b) :
    Leads read a (field name token value) b := by
  subst hset
  cases value with
  | none =>
      rw [hnone]
      exact .nil a
  | some x => exact .single (hread x rfl)

/-! ### Looking for a property -/

theorem get?_ofPairs (pairs : List (String × Token)) (name : String) :
    (Token.ofPairs pairs).get? name = (pairs.find? fun p => p.1 = name).map (·.2) := by
  change ((pairs.map madeEntry).find? fun e => decide (e.1.name = name)).map (·.2) = _
  rw [List.find?_map, Option.map_map]
  rfl

theorem find?_field (n name : String) (token : β → Token) (value : Option β) :
    ((field n token value).find? fun p => p.1 = name)
      = if n = name then value.map fun x => (n, token x) else none := by
  cases value with
  | none => simp [field]
  | some x =>
      by_cases h : n = name
      · simp [field, h]
      · simp [field, h]

/-! ### Lists and dictionaries of texts -/

theorem mapM_ok {ε : Type} {f : α → Except ε β} {g : β → α} (h : ∀ b, f (g b) = .ok b)
    (items : List β) : (items.map g).mapM f = .ok items := by
  induction items with
  | nil => rfl
  | cons b rest ih =>
      rw [List.map_cons, List.mapM_cons, h, ih]
      rfl

theorem expectTexts_textsToken (texts : List String) (what : String) :
    (textsToken texts).expectTexts what = .ok texts :=
  mapM_ok (f := (Token.expectText · what)) (fun _ => rfl) texts

theorem expectTextMap_pairsToken (pairs : List (String × String)) (what : String) :
    (pairsToken pairs).expectTextMap what = .ok pairs := by
  rw [pairsToken, Token.expectTextMap, if_neg (by simp [Token.ofPairs, Token.isNull]),
    Token.expectMapping_eq what (entries?_ofPairs _), List.map_map]
  exact mapM_ok (f := fun (e : Entry) => do return (e.1.name, ← e.2.expectText what))
    (g := fun p => madeEntry (p.1, .ofText p.2)) (fun _ => rfl) pairs

section Puts

variable [LawfulMonad m] {read : Dictionary β → Entry → m (Dictionary β)} {token : β → Token}

/-- Entries that are each put into a dictionary. -/
theorem leads_foldl_put {entries : List (String × β)} (d : Dictionary β)
    (h : ∀ e ∈ entries, ∀ d : Dictionary β,
      read d (madeEntry (e.1, token e.2)) = pure (d.put e.1 e.2)) :
    Leads read d (entries.map fun (k, v) => (k, token v))
      (entries.foldl (fun d e => Dictionary.put d e.1 e.2) d) := by
  induction entries generalizing d with
  | nil => exact .nil d
  | cons e rest ih =>
      obtain ⟨he, hrest⟩ := List.forall_mem_cons.mp h
      exact .cons (he d) (ih _ hrest)

/-- A dictionary is built again from its entries, each put where it was. -/
theorem leads_put {d : Dictionary β} (hd : d.Canonical)
    (h : ∀ e ∈ d, ∀ d : Dictionary β,
      read d (madeEntry (e.1, token e.2)) = pure (d.put e.1 e.2)) :
    Leads read [] (d.map fun (k, v) => (k, token v)) d := by
  have hleads := leads_foldl_put [] h
  have hsame : d.foldl (fun d e => Dictionary.put d e.1 e.2) [] = d :=
    Dictionary.ofEntries_eq_of_perm hd (.refl d)
  rwa [hsame] at hleads

end Puts

end PipelineExpansion.Pipeline
