import Mathlib.Data.List.Nodup
import Mathlib.Data.List.Perm.Subperm
import PipelineExpansion.Text.Name

/-!
# Fresh names are fresh

`freshName` tries a word, then the word with the numbers from two on behind it, and gives up after
one candidate more than there are names in use. This module shows that it never has to give up:
the folded candidates are pairwise different (`fold_candidate_injective`), so that one of them is
free.

## Main results

* `freshName_spec`: the fresh name is the first candidate whose folded form is not in use.
* `search_freshName`: a search without a bound ends, and finds the fresh name.
-/

namespace PipelineExpansion.Text

/-! ### Folding -/

@[simp] theorem toList_fold (s : String) : (fold s).toList = s.toList.map Char.toLower := by
  simp [fold]

/-- Names are the same exactly when they fold to one text. -/
@[simp] theorem sameName_iff {a b : String} : sameName a b = true ↔ fold a = fold b := by
  simp [sameName]

/-- Digits have no other case. -/
theorem toLower_of_isDigit {c : Char} (h : c.isDigit) : c.toLower = c := by
  simp only [Char.isDigit, Bool.and_eq_true, decide_eq_true_eq] at h
  exact dif_neg fun hc => absurd (UInt32.le_trans hc.1 h.2) (by decide)

/-- A number is its own folded form, so folding a numbered word folds the word alone. -/
theorem fold_append_toString (word : String) (n : Nat) :
    fold (word ++ toString n) = fold word ++ toString n := by
  have hdigits : (Nat.toDigits 10 n).map Char.toLower = (Nat.toDigits 10 n).map id := by
    refine List.map_congr_left (fun c hc => ?_)
    exact toLower_of_isDigit (Nat.isDigit_of_mem_toDigits (by decide) (by decide) hc)
  rw [List.map_id] at hdigits
  rw [← String.toList_inj]
  simp [hdigits]

/-! ### Candidates -/

/-- A number is read off its digits. -/
theorem toString_nat_injective {i j : Nat} (h : toString i = toString j) : i = j := by
  rw [Nat.toString_eq_ofList_toDigits, Nat.toString_eq_ofList_toDigits, String.ofList_inj] at h
  have hvalue := congrArg (fun digits => Nat.ofDigitChars 10 digits 0) h
  simpa using hvalue

@[simp] theorem candidate_zero (word : String) : candidate word 0 = word := rfl

@[simp] theorem candidate_succ (word : String) (i : Nat) :
    candidate word (i + 1) = word ++ toString (i + 2) := rfl

/-- A numbered candidate is longer than the bare word. -/
theorem fold_ne_fold_candidate_succ (word : String) (i : Nat) :
    fold word ≠ fold (candidate word (i + 1)) := by
  intro h
  rw [candidate_succ, fold_append_toString] at h
  have hlen := congrArg String.length h
  rw [String.length_append] at hlen
  have hempty : (toString (i + 2)).length = 0 := by omega
  exact Nat.repr_ne_empty (String.length_eq_zero_iff.mp hempty)

/-- No two candidates for a name count as one. -/
theorem fold_candidate_injective (word : String) :
    Function.Injective fun i => fold (candidate word i) := by
  intro i j h
  cases i with
  | zero =>
      cases j with
      | zero => rfl
      | succ j => exact absurd h (fold_ne_fold_candidate_succ word j)
  | succ i =>
      cases j with
      | zero => exact absurd h.symm (fold_ne_fold_candidate_succ word i)
      | succ j =>
          simp only [candidate_succ, fold_append_toString] at h
          have := toString_nat_injective ((String.append_right_inj _).mp h)
          omega

/-! ### The first free candidate -/

/-- Among one candidate more than there are names in use, one is free. -/
theorem exists_candidate_notMem (word : String) (used : List String) :
    ∃ i < used.length + 1, fold (candidate word i) ∉ used := by
  by_contra hall
  push Not at hall
  have hnodup : ((List.range (used.length + 1)).map fun i => fold (candidate word i)).Nodup :=
    List.nodup_range.map (fold_candidate_injective word)
  have hsubset : ((List.range (used.length + 1)).map fun i => fold (candidate word i)) ⊆
    used := by
    intro name hname
    obtain ⟨i, hi, rfl⟩ := List.mem_map.mp hname
    exact hall i (List.mem_range.mp hi)
  have hlen := (List.subperm_of_subset hnodup hsubset).length_le
  rw [List.length_map, List.length_range] at hlen
  omega

/-- **The fresh name is the first candidate that is free.** -/
theorem freshName_spec (word : String) (used : List String) :
    ∃ i, freshName word used = candidate word i ∧ fold (candidate word i) ∉ used ∧
      ∀ j < i, fold (candidate word j) ∈ used := by
  obtain ⟨n, hn, hfree⟩ := exists_candidate_notMem word used
  have hsome : ((List.range (used.length + 1)).find? fun i =>
      !used.contains (fold (candidate word i))).isSome := by
    rw [List.find?_isSome]
    exact ⟨n, List.mem_range.mpr hn, by simpa using hfree⟩
  obtain ⟨i, hi⟩ := Option.isSome_iff_exists.mp hsome
  have hname : freshName word used = candidate word i := by
    rw [freshName, List.find?_map]
    simp only [Function.comp_def, hi, Option.map_some, Option.getD_some]
  obtain ⟨hpi, -, hbefore⟩ := List.find?_range_eq_some.mp hi
  exact ⟨i, hname, by simpa using hpi, fun j hj => by simpa using hbefore j hj⟩

/-! ### The search without a bound -/

/-- A search through the candidates that comes to an end. It passes over those in use, from one of them
on, and stops at the first that is free. -/
inductive Search (word : String) (used : List String) : Nat → String → Prop
  | stop {i : Nat} (hfree : fold (candidate word i) ∉ used) :
      Search word used i (candidate word i)
  | pass {i : Nat} {name : String} (hused : fold (candidate word i) ∈ used)
      (hrest : Search word used (i + 1) name) : Search word used i name

/-- The search ends whatever names are in use, and with the fresh name. -/
theorem search_freshName (word : String) (used : List String) :
    Search word used 0 (freshName word used) := by
  obtain ⟨i, hname, hfree, hbefore⟩ := freshName_spec word used
  rw [hname]
  have hfrom : ∀ d j, j + d = i → Search word used j (candidate word i) := by
    intro d
    induction d with
    | zero =>
        rintro j rfl
        exact .stop hfree
    | succ d ih => exact fun j hj => .pass (hbefore j (by omega)) (ih (j + 1) (by omega))
  exact hfrom i 0 (Nat.zero_add i)

end PipelineExpansion.Text
