import PipelineExpansion.BuildProcess.Document
import PipelineExpansion.Proofs.Yaml.Graph

/-!
# Optional entries

Most properties are optional, and the writers leave out what is not there. An entry that may be
left out leads its reader from the state without a value to the state with the value that was
written; a text that is empty counts as none (`filled`). The names of optional entries are among
the names that the writer has for them, so that no two entries of a mapping share a name.
-/

namespace PipelineExpansion.BuildProcess

open Yaml

variable {α σ : Type}

/-- A text, unless it is empty. -/
def filled (value : Option String) : Option String := value.filter (!·.isEmpty)

theorem filled_ne (value : Option String) : filled value ≠ some "" := by
  cases value with
  | none => nofun
  | some s =>
      rw [filled, Option.filter]
      split
      · next h =>
        rintro ⟨⟩
        cases h
      · nofun

theorem filled_of_ne {value : Option String} (h : value ≠ some "") : filled value = value := by
  cases value with
  | none => rfl
  | some s =>
      have hs : s.isEmpty = false := by simpa using h
      simp [filled, Option.filter, hs]

@[simp] theorem filled_filled (value : Option String) : filled (filled value) = filled value :=
  filled_of_ne (filled_ne value)

/-! ### Reading optional entries -/

section Entries

variable {step : σ → Reader σ} {name : String}

/-- `set` puts a text in the place that the entry is for. -/
theorem entries_textEntry (set : Option String → σ) {value : Option String}
    (hvalue : value ≠ some "")
    (h : ∀ s, s ≠ "" → Takes (step (set none)) [.scalar name false, .scalar s false]
      (set (some s))) :
    Entries step (set none) (textEntry name value) (set value) := by
  cases value with
  | none => exact .nil _
  | some s => exact .single (h s fun hs => hvalue (hs ▸ rfl))

theorem entries_filledEntry (set : Option String → σ) (value : Option String)
    (h : ∀ s, s ≠ "" → Takes (step (set none)) [.scalar name false, .scalar s false]
      (set (some s))) :
    Entries step (set none) (filledEntry name value) (set (filled value)) :=
  entries_textEntry set (filled_ne value) h

/-- A text whose reader wants it to say something. -/
theorem entries_nonEmpty {body : σ → Scalar → Reader σ} (set : Option String → σ)
    {value : Option String}
    (hvalue : value ≠ some "")
    (hbody : ∀ key, key.text = name →
      body (set none) key = Reader.nonEmpty >>= fun s => pure (set (some s))) :
    Entries (fun a => Reader.scalar >>= body a) (set none) (textEntry name value) (set value) :=
  entries_textEntry set hvalue fun _ hs =>
    takes_key ((takes_nonEmpty hs).map fun s => set (some s)) hbody

theorem entries_nonEmpty_filled {body : σ → Scalar → Reader σ} (set : Option String → σ)
    {value : Option String} (hvalue : value ≠ some "")
    (hbody : ∀ key, key.text = name →
      body (set none) key = Reader.nonEmpty >>= fun s => pure (set (some s))) :
    Entries (fun a => Reader.scalar >>= body a) (set none) (filledEntry name value)
      (set value) := by
  rw [filledEntry, ← filled, filled_of_ne hvalue]
  exact entries_nonEmpty set hvalue hbody

/-- A text whose reader takes any text. -/
theorem entries_scalar {body : σ → Scalar → Reader σ} (set : Option String → σ)
    (value : Option String)
    (hbody : ∀ key, key.text = name →
      body (set none) key = Reader.scalar >>= fun s => pure (set (some s.text))) :
    Entries (fun a => Reader.scalar >>= body a) (set none) (textEntry name value)
      (set value) := by
  cases value with
  | none => exact .nil _
  | some s => exact .single (takes_key (takes_scalar_map (fun s => set (some s)) s) hbody)

theorem entries_treeEntry (set : Option α → σ) {tree : α → Tree} {f : α → α} {value : Option α}
    (h : ∀ a, value = some a →
      Takes (step (set none)) (.scalar name false :: (tree a).events) (set (some (f a)))) :
    Entries step (set none) (treeEntry name tree value) (set (value.map f)) := by
  cases value with
  | none => exact .nil _
  | some a => exact .single (h a rfl)

end Entries

/-! ### Names of optional entries -/

theorem keys_textEntry (name : String) (value : Option String) :
    (Tree.keys (textEntry name value)).Sublist [name] := by
  cases value with
  | none => exact List.nil_sublist _
  | some s => exact .refl _

theorem keys_filledEntry (name : String) (value : Option String) :
    (Tree.keys (filledEntry name value)).Sublist [name] :=
  keys_textEntry name _

theorem keys_when (p : Prop) [Decidable p] (name : String) (t : Tree) :
    (Tree.keys (if p then [(name, t)] else [])).Sublist [name] := by
  split
  · exact .refl _
  · exact List.nil_sublist _

theorem keys_unless (p : Prop) [Decidable p] (name : String) (t : Tree) :
    (Tree.keys (if p then [] else [(name, t)])).Sublist [name] := by
  rw [← ite_not]
  exact keys_when _ _ _

theorem keys_treeEntry (name : String) (tree : α → Tree) (value : Option α) :
    (Tree.keys (treeEntry name tree value)).Sublist [name] := by
  cases value with
  | none => exact List.nil_sublist _
  | some a => exact .refl _

/-! ### Values that are there -/

theorem some_ne_some_empty {s : String} (h : s ≠ "") : some s ≠ some "" :=
  fun heq => h (Option.some_inj.mp heq)

theorem forall_mem_some {P : α → Prop} {a : α} (h : P a) : ∀ b ∈ some a, P b := by
  rintro _ ⟨⟩
  exact h

/-- What holds of all items that are given holds of all items there are. -/
theorem forall_mem_getD {P : α → Prop} {given : Option (List α)}
    (h : ∀ items ∈ given, ∀ a ∈ items, P a) : ∀ a ∈ given.getD [], P a := by
  cases given with
  | none => exact List.forall_mem_nil _
  | some items => exact h items rfl

/-- Values that are written alike make entries that are alike. -/
theorem treeEntry_map {tree : α → Tree} {f : α → α} (h : ∀ a, tree (f a) = tree a) (name : String)
    (value : Option α) : treeEntry name tree (value.map f) = treeEntry name tree value := by
  cases value with
  | none => rfl
  | some a =>
      simp only [Option.map_some, treeEntry]
      rw [h]

end PipelineExpansion.BuildProcess
