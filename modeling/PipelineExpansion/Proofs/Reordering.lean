import Mathlib.Data.List.Forall2

/-!
# Entries that change places

Entries are read one after another, and each changes what has been read so far. Where entries of
different keys change different parts of it, they may change places; those of one key may not, as the
last of them counts. `Reorders` says so of two lists, and `Reorders.forall₂` that it makes no difference
to what is read.
-/

namespace PipelineExpansion

variable {κ ν γ σ : Type} {l l' : List (κ × ν)}

/-- The same entries in another order, in which those of one key come one after another as before. -/
inductive Reorders : List (κ × ν) → List (κ × ν) → Prop
  | nil : Reorders [] []
  | cons (e : κ × ν) {l l' : List (κ × ν)} (h : Reorders l l') : Reorders (e :: l) (e :: l')
  | swap {a b : κ × ν} (l : List (κ × ν)) (h : a.1 ≠ b.1) : Reorders (a :: b :: l) (b :: a :: l)
  | trans {l₁ l₂ l₃ : List (κ × ν)} (h : Reorders l₁ l₂) (h' : Reorders l₂ l₃) : Reorders l₁ l₃

theorem Reorders.refl (l : List (κ × ν)) : Reorders l l := by
  induction l with
  | nil => exact .nil
  | cons e l ih => exact .cons e ih

theorem Reorders.symm (h : Reorders l l') : Reorders l' l := by
  induction h with
  | nil => exact .nil
  | cons e _ ih => exact .cons e ih
  | swap l h => exact .swap l h.symm
  | trans _ _ ih ih' => exact ih'.trans ih

theorem Reorders.perm (h : Reorders l l') : l.Perm l' := by
  induction h with
  | nil => exact .nil
  | cons e _ ih => exact ih.cons e
  | swap l _ => exact .swap _ _ l
  | trans _ _ ih ih' => exact ih.trans ih'

/-- **Entries in another order say the same**, if those of different keys change different things. -/
theorem Reorders.forall₂ {Says : κ × ν → γ → Prop} {put : σ → γ → σ}
    (hcomm : ∀ a b c d, Says a c → Says b d → a.1 ≠ b.1 →
      ∀ s, put (put s c) d = put (put s d) c)
    (h : Reorders l l') {cs : List γ} (hsaid : List.Forall₂ Says l cs) :
    ∃ cs', List.Forall₂ Says l' cs' ∧ ∀ s, cs'.foldl put s = cs.foldl put s := by
  induction h generalizing cs with
  | nil => exact ⟨cs, hsaid, fun _ => rfl⟩
  | cons e _ ih =>
      obtain ⟨c, rest, hc, hrest, rfl⟩ := List.forall₂_cons_left_iff.mp hsaid
      obtain ⟨cs', hcs', hput⟩ := ih hrest
      exact ⟨c :: cs', .cons hc hcs', fun s => hput (put s c)⟩
  | swap l hne =>
      obtain ⟨c, behind, hc, hbehind, rfl⟩ := List.forall₂_cons_left_iff.mp hsaid
      obtain ⟨d, rest, hd, hrest, rfl⟩ := List.forall₂_cons_left_iff.mp hbehind
      refine ⟨d :: c :: rest, .cons hd (.cons hc hrest), fun s => ?_⟩
      rw [List.foldl_cons, List.foldl_cons, List.foldl_cons, List.foldl_cons,
        hcomm _ _ c d hc hd hne s]
  | trans _ _ ih ih' =>
      obtain ⟨cs', hcs', hput⟩ := ih hsaid
      obtain ⟨cs'', hcs'', hput'⟩ := ih' hcs'
      exact ⟨cs'', hcs'', fun s => (hput' s).trans (hput s)⟩

end PipelineExpansion
