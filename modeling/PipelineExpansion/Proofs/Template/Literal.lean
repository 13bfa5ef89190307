import Mathlib.Data.List.Nodup
import PipelineExpansion.Proofs.Template.Charge
import PipelineExpansion.Proofs.Text.Pieces
import PipelineExpansion.Template.Evaluate

/-!
# Literal templates

A token in which nothing opens an expression is literal. Evaluation has nothing to do in it: it
walks over all nodes, is charged one event for each, and gives the token back as it was, with all
its origins. Whether the walk succeeds is a matter of two numbers alone, the number of nodes and
the depth of the deepest one.

The proof follows the mutual recursion of `evalToken`, `evalItems` and `evalEntries`; what is
added up on the way is kept in `Charges`. No item and no key of a literal token is a directive,
because directives stand between the braces of an expression (`Directive.ofKey?_eq_none`).

## Main results

* `evaluate_literal`: evaluation of a literal token succeeds exactly when its depth and its nodes
  are within the limits, gives it back unchanged, and otherwise fails with a limit.
-/

namespace PipelineExpansion.Template

open Expression (opening)

/-! ### Measures of tokens -/

mutual

/-- The number of nodes of a token: itself, and below it items, keys and values. -/
def Token.nodes : Token → Nat
  | .sequence _ items => 1 + itemNodes items
  | .mapping _ entries => 1 + entryNodes entries
  | _ => 1

/-- The number of nodes of items. -/
def itemNodes : List Token → Nat
  | [] => 0
  | t :: rest => t.nodes + itemNodes rest

/-- The number of nodes of entries. -/
def entryNodes : List (Key × Token) → Nat
  | [] => 0
  | (_, t) :: rest => 1 + t.nodes + entryNodes rest

end

mutual

/-- The depth of the deepest node of a token that stands at a depth. Keys, values and items stand
one deeper than their collection. -/
def Token.deepest (depth : Nat) : Token → Nat
  | .sequence _ items => max depth (deepestItem (depth + 1) items)
  | .mapping _ entries => max depth (deepestEntry (depth + 1) entries)
  | _ => depth

/-- The depth of the deepest node of items that stand at a depth. -/
def deepestItem (depth : Nat) : List Token → Nat
  | [] => 0
  | t :: rest => max (t.deepest depth) (deepestItem depth rest)

/-- The depth of the deepest node of entries that stand at a depth. -/
def deepestEntry (depth : Nat) : List (Key × Token) → Nat
  | [] => 0
  | (_, t) :: rest => max (max depth (t.deepest depth)) (deepestEntry depth rest)

end

mutual

/-- No text and no key opens an expression, and no mapping has a key twice. -/
def Token.IsLiteral : Token → Prop
  | .text _ s => ¬ opening <:+: s.toList
  | .sequence _ items => LiteralItems items
  | .mapping _ entries => (entries.map fun e => e.1.name).Nodup ∧ LiteralEntries entries
  | _ => True

/-- All items are literal. -/
def LiteralItems : List Token → Prop
  | [] => True
  | t :: rest => t.IsLiteral ∧ LiteralItems rest

/-- All values are literal, and no key opens an expression. -/
def LiteralEntries : List (Key × Token) → Prop
  | [] => True
  | (k, t) :: rest => ¬ opening <:+: k.name.toList ∧ t.IsLiteral ∧ LiteralEntries rest

end

/-! ### Literal texts and keys -/

/-- A key that opens no expression is no directive. -/
theorem Directive.ofKey?_eq_none {key : String} (h : ¬ opening <:+: key.toList) :
    Directive.ofKey? key = none := by
  have hopening : Text.stripPrefix? "$\x7b\x7b" (Text.trim key) = none := by
    by_contra hsome
    have hopen := Text.prefix_of_stripPrefix?_isSome (Option.isSome_iff_ne_none.mpr hsome)
    exact h (hopen.isInfix.trans (Text.toList_trim_infix key))
  simp [Directive.ofKey?, Directive.inner?, hopening]

/-- A text that opens no expression is free and stays. -/
theorem charges_evalText {s : String} (h : ¬ opening <:+: s.toList) (l : Limits) (names : Token)
    (o : Origin) : Charges l (evalText l names o s) (.text o s) 0 0 := by
  have hnone : Expression.hasExpression s = false := by
    rw [← Bool.not_eq_true, Expression.hasExpression, Text.cut?_isSome]
    exact h
  have hpure : evalText l names o s = pure (.text o s) := by
    simp [evalText, hnone]
  rw [hpure]
  exact .pure l _

/-- A key that opens no expression is one node and stays. -/
theorem charges_evalKey {key : Key} (h : ¬ opening <:+: key.name.toList) (l : Limits)
    (names : Token) (depth : Nat) : Charges l (evalKey l names depth key) key 1 depth := by
  have hname : Charges l (do keyOf (← evalText l names key.origin key.name)) key (0 + 0)
    (max 0 0) :=
    (charges_evalText h l names key.origin).bind (.pure l key)
  have hkey : Charges l (evalKey l names depth key) key (1 + (0 + 0)) (max depth (max 0 0)) :=
    (Charges.enter l depth).bind hname
  rwa [Nat.max_zero, Nat.max_zero] at hkey

/-- A literal item is no directive. -/
theorem itemDirective?_eq_none {item : Token} (h : item.IsLiteral) :
    itemDirective? item = none := by
  unfold itemDirective?
  split
  · next key value =>
      rw [Token.IsLiteral, LiteralEntries] at h
      obtain ⟨-, hkey, -⟩ := h
      rw [Directive.ofKey?_eq_none hkey, Option.map_none]
  · rfl

/-- What a literal item contributes is itself. -/
theorem spliced_self (item : Token) : spliced item item = [item] := by
  cases item <;> rfl

/-- An entry whose key is new is added behind the others. -/
theorem addEntry_eq_ok {entries : List Entry} {e : Entry}
    (h : e.1.name ∉ entries.map fun e => e.1.name) :
      addEntry entries e = .ok (entries ++ [e]) := by
  rw [addEntry, if_neg]
  rw [List.any_eq_true]
  rintro ⟨other, hmem, hname⟩
  exact h (List.mem_map.mpr ⟨other, hmem, of_decide_eq_true hname⟩)

/-! ### The walk -/

mutual

/-- A literal token is charged its nodes and stays. -/
theorem charges_evalToken {t : Token} (h : t.IsLiteral) (l : Limits) (names : Token)
    (depth : Nat) :
    Charges l (evalToken l names depth t) t t.nodes (t.deepest depth) := by
  match t with
  | .null o =>
      simp only [evalToken, Token.nodes, Token.deepest]
      exact (Charges.enter l depth).map fun _ => Token.null o
  | .boolean o b =>
      simp only [evalToken, Token.nodes, Token.deepest]
      exact (Charges.enter l depth).map fun _ => Token.boolean o b
  | .number o n =>
      simp only [evalToken, Token.nodes, Token.deepest]
      exact (Charges.enter l depth).map fun _ => Token.number o n
  | .text o s =>
      rw [Token.IsLiteral] at h
      simp only [evalToken, Token.nodes, Token.deepest]
      have htext := (Charges.enter l depth).bind (f := fun _ => evalText l names o s)
        (charges_evalText h l names o)
      rwa [Nat.max_zero] at htext
  | .sequence o items =>
      rw [Token.IsLiteral] at h
      simp only [evalToken, Token.nodes, Token.deepest]
      exact (Charges.enter l depth).bind
        ((charges_evalItems h l names depth none).map (Token.sequence o))
  | .mapping o entries =>
      rw [Token.IsLiteral] at h
      simp only [evalToken, Token.nodes, Token.deepest]
      exact (Charges.enter l depth).bind
        ((charges_evalEntries h.2 l [] names depth none h.1).map (Token.mapping o))

/-- Literal items are charged their nodes and stay. -/
theorem charges_evalItems {items : List Token} (h : LiteralItems items) (l : Limits)
    (names : Token) (depth : Nat) (chain : Chain) :
    Charges l (evalItems l names depth chain items) items (itemNodes items)
      (deepestItem (depth + 1) items) := by
  match items with
  | [] => exact .pure l []
  | item :: rest =>
      rw [LiteralItems] at h
      obtain ⟨hitem, hrest⟩ := h
      simp only [evalItems, itemDirective?_eq_none hitem, itemNodes, deepestItem]
      have hmore :
        Charges l (do return spliced item item ++ (← evalItems l names depth none rest))
          (item :: rest) (itemNodes rest) (deepestItem (depth + 1) rest) := by
        rw [spliced_self]
        exact (charges_evalItems hrest l names depth none).map ([item] ++ ·)
      exact (charges_evalToken hitem l names (depth + 1)).bind hmore

/-- Literal entries are charged their nodes and are added to those that are done. -/
theorem charges_evalEntries {entries : List Entry} (h : LiteralEntries entries) (l : Limits)
    (done : List Entry) (names : Token) (depth : Nat) (chain : Chain)
    (hnodup : ((done ++ entries).map fun e => e.1.name).Nodup) :
    Charges l (evalEntries l names depth chain done entries) (done ++ entries)
      (entryNodes entries)
      (deepestEntry (depth + 1) entries) := by
  match entries with
  | [] =>
      rw [List.append_nil]
      exact .pure l done
  | (key, value) :: rest =>
      rw [LiteralEntries] at h
      obtain ⟨hkey, hvalue, hrest⟩ := h
      have hnew : key.name ∉ done.map fun e => e.1.name := by
        rw [List.map_append, List.nodup_append] at hnodup
        exact fun hmem => hnodup.2.2 _ hmem _ List.mem_cons_self rfl
      have hmore : Charges l
          (do evalEntries l names depth none (← addEntry done (key, value)) rest)
          (done ++ (key, value) :: rest) (entryNodes rest) (deepestEntry (depth + 1) rest) := by
        rw [addEntry_eq_ok hnew, List.append_cons done (key, value) rest]
        rw [List.append_cons done (key, value) rest] at hnodup
        exact charges_evalEntries hrest l _ names depth none hnodup
      simp only [evalEntries, Directive.ofKey?_eq_none hkey, entryNodes, deepestEntry]
      rw [Nat.add_assoc, Nat.max_assoc]
      exact (charges_evalKey hkey l names (depth + 1)).bind
        ((charges_evalToken hvalue l names (depth + 1)).bind hmore)

end

end PipelineExpansion.Template
