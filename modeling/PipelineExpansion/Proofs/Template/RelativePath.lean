import Mathlib.Data.List.Basic
import PipelineExpansion.Disk
import PipelineExpansion.Proofs.Text.Pieces
import PipelineExpansion.Template.Context

/-!
# Paths seen from directories

A path is made normal segment by segment, on a stack of the names that are left: `..` takes the last of
them away, if there is one. What has become of a first path is a stack, and the stack is all that the
segments behind it meet. The text of a normal path is read back to the same stack, so it may be written
down and taken up again: seen from a normal path, another path is what it would be behind the path that
was made normal (`relativeTo_relativeTo`).

## Main results

* `normal_relativeTo`: a path seen from a directory is normal.
* `relativeTo_empty_eq_iff`: the paths that are the same seen from the root are the normal ones.
* `relativeTo_relativeTo`: one path behind another.
* `Normal.relativeTo_directoryOf`: a path seen from the directory of a file.
* `Normal.staysBelow`: a normal path leads nowhere but below the place that it is followed from.
-/

namespace PipelineExpansion.Template

variable {path : String} {names stack : List String}

/-- A name that a directory or a file may have in a path. -/
def IsName (s : String) : Prop := s ∉ ["", ".", ".."] ∧ '/' ∉ s.toList

/-- Whether a path is empty or made of names, with a slash between any two of them. -/
def Normal (path : String) : Prop := path = "" ∨ ∀ s ∈ Text.split '/' path, s ∉ ["", ".", ".."]

/-- A path leads nowhere but below the place that it is followed from, nor does it pass by any other
place. -/
def StaysBelow (path : String) : Prop :=
  ∀ root, ∀ place ∈ Disk.wayFrom root (Text.split '/' path), root <+: place

/-! ### Normal paths -/

/-- The segments of a path that is written with names. -/
theorem split_join (h : ∀ s ∈ names, IsName s) (hne : names ≠ []) :
    Text.split '/' (Text.join "/" names) = names :=
  Text.split_eq_iff.mpr ⟨hne, fun s hs => (h s hs).2, rfl⟩

/-- A path is normal exactly if it is written with names. -/
theorem normal_iff :
    Normal path ↔ ∃ names, (∀ s ∈ names, IsName s) ∧ path = Text.join "/" names := by
  constructor
  · rintro (rfl | h)
    · exact ⟨[], List.forall_mem_nil _, rfl⟩
    · obtain ⟨-, hslash, hpath⟩ := Text.split_eq_iff.mp (Eq.refl (Text.split '/' path))
      exact ⟨_, fun s hs => ⟨h s hs, hslash s hs⟩, hpath⟩
  · rintro ⟨names, hnames, rfl⟩
    cases names with
    | nil => exact .inl rfl
    | cons s rest =>
        refine .inr fun t ht => ?_
        rw [split_join hnames (List.cons_ne_nil s rest)] at ht
        exact (hnames t ht).1

theorem Normal.head?_ne (h : Normal path) : path.toList.head? ≠ some '/' := by
  intro hhead
  obtain ⟨cs, hcs⟩ := List.head?_eq_some_iff.mp hhead
  have hpath : path = "" ++ String.singleton '/' ++ String.ofList cs := by
    simp [← String.toList_inj, hcs]
  rcases h with rfl | h
  · simp at hcs
  · refine h "" ?_ (by decide)
    rw [hpath, Text.split_append]
    exact List.mem_append_left _ (List.mem_singleton_self _)

theorem Normal.getLast?_ne (h : Normal path) : path.toList.getLast? ≠ some '/' := by
  intro hlast
  obtain ⟨cs, hcs⟩ := List.getLast?_eq_some_iff.mp hlast
  have hpath : path = String.ofList cs ++ String.singleton '/' ++ "" := by
    simp [← String.toList_inj, hcs]
  rcases h with rfl | h
  · simp at hcs
  · refine h "" ?_ (by decide)
    rw [hpath, Text.split_append]
    exact List.mem_append_right _ (List.mem_singleton_self _)

/-! ### The stack of names -/

theorem addSegment_name {s : String} (h : IsName s) : addSegment stack s = s :: stack := by
  simp_all [addSegment, IsName]

theorem addSegment_up : addSegment stack ".." = stack.drop 1 := rfl

/-- Names are put on the stack one after the other. -/
theorem foldl_names (h : ∀ s ∈ names, IsName s) :
    names.foldl addSegment stack = names.reverse ++ stack := by
  induction names generalizing stack with
  | nil => rfl
  | cons s rest ih =>
      obtain ⟨hs, hrest⟩ := List.forall_mem_cons.mp h
      rw [List.foldl_cons, addSegment_name hs, ih hrest, List.reverse_cons, List.append_assoc,
        List.singleton_append]

/-- Whatever segments come, there are only names on the stack. -/
theorem isName_of_mem_foldl {segments : List String} (hsegments : ∀ s ∈ segments, '/' ∉ s.toList)
    (h : ∀ s ∈ stack, IsName s) : ∀ s ∈ segments.foldl addSegment stack, IsName s := by
  induction segments generalizing stack with
  | nil => exact h
  | cons s rest ih =>
      obtain ⟨hs, hrest⟩ := List.forall_mem_cons.mp hsegments
      refine ih hrest ?_
      rw [addSegment]
      split
      · exact h
      · split
        · exact fun t ht => h t (List.mem_of_mem_drop ht)
        · exact List.forall_mem_cons.mpr ⟨⟨by simp_all, hs⟩, h⟩

/-- The segments of a path that is written with names are these names, or an empty one that adds none. -/
theorem foldl_split_join (h : ∀ s ∈ names, IsName s) :
    (Text.split '/' (Text.join "/" names)).foldl addSegment stack = names.reverse ++ stack := by
  cases names with
  | nil => rfl
  | cons s rest =>
      rw [split_join h (List.cons_ne_nil s rest)]
      exact foldl_names h

theorem isName_of_mem_segmentsFrom {directory s : String} (h : s ∈ segmentsFrom directory path) :
    IsName s := by
  refine isName_of_mem_foldl (fun t ht => ?_) (List.forall_mem_nil _) s (List.mem_reverse.mp h)
  rcases List.mem_append.mp ht with ht | ht
  · exact (Text.split_eq_iff.mp rfl).2.1 t ht
  · exact (Text.split_eq_iff.mp rfl).2.1 t ht

/-! ### Paths seen from directories -/

/-- **A path seen from a directory is normal**, whatever the two are. -/
theorem normal_relativeTo (directory path : String) : Normal (relativeTo directory path) :=
  normal_iff.mpr ⟨_, fun _ => isName_of_mem_segmentsFrom, rfl⟩

/-- What is on the stack behind a path seen from a directory. -/
theorem foldl_split_relativeTo (directory path : String) :
    (Text.split '/' (relativeTo directory path)).foldl addSegment [] =
      (Text.split '/' path).foldl addSegment ((Text.split '/' directory).foldl addSegment []) := by
  rw [relativeTo, foldl_split_join fun _ => isName_of_mem_segmentsFrom, segmentsFrom,
    List.reverse_reverse, List.append_nil, List.foldl_append]

/-- A path behind two stacks that are the same. -/
theorem relativeTo_congr {directory directory' path path' : String}
    (h : (Text.split '/' path).foldl addSegment ((Text.split '/' directory).foldl addSegment []) =
      (Text.split '/' path').foldl addSegment ((Text.split '/' directory').foldl addSegment [])) :
    relativeTo directory path = relativeTo directory' path' := by
  simp only [relativeTo, segmentsFrom, List.foldl_append, h]

/-- A normal path is the same seen from the root. -/
theorem Normal.relativeTo_empty (h : Normal path) : relativeTo "" path = path := by
  obtain ⟨names, hnames, rfl⟩ := normal_iff.mp h
  rw [relativeTo, segmentsFrom, List.foldl_append, foldl_split_join hnames, List.reverse_append,
    List.reverse_reverse]
  rfl

/-- The paths that are the same seen from the root are the normal ones. -/
theorem relativeTo_empty_eq_iff : relativeTo "" path = path ↔ Normal path :=
  ⟨fun h => h ▸ normal_relativeTo "" path, Normal.relativeTo_empty⟩

/-- **One path behind another**: it makes no difference whether the first is made normal in between. -/
theorem relativeTo_relativeTo (a b c : String) :
    relativeTo (relativeTo a b) c = relativeTo a (b ++ "/" ++ c) := by
  refine relativeTo_congr ?_
  have hsplit : Text.split '/' (b ++ "/" ++ c) = Text.split '/' b ++ Text.split '/' c :=
    Text.split_append '/' b c
  rw [foldl_split_relativeTo, hsplit, List.foldl_append]

/-- The directory of a path that is written with names. -/
theorem directoryOf_join {init : List String} {last : String} (hinit : ∀ s ∈ init, IsName s)
    (hlast : IsName last) :
    directoryOf (Text.join "/" (init ++ [last])) =
      if init = [] then none else some (Text.join "/" init) := by
  have hslash : '/' ∉ last.toList := hlast.2
  cases init with
  | nil =>
      rw [directoryOf, List.nil_append, Text.join, String.intercalate_singleton,
        Text.splitLast?_eq_none hslash]
      rfl
  | cons s rest =>
      have hjoin : Text.join "/" (s :: rest ++ [last]) =
          Text.join "/" (s :: rest) ++ String.singleton '/' ++ last := by
        rw [Text.join, String.intercalate_append_of_ne_nil (List.cons_ne_nil s rest)
          (List.cons_ne_nil last []), String.intercalate_singleton]
        rfl
      have hne : Text.join "/" (s :: rest) ≠ "" := fun hempty => by
        have hsplit := split_join hinit (List.cons_ne_nil s rest)
        rw [hempty] at hsplit
        obtain ⟨rfl, -⟩ := List.cons.inj hsplit
        exact (hinit "" List.mem_cons_self).1 List.mem_cons_self
      rw [directoryOf, hjoin, Text.splitLast?_append _ hslash,
        if_neg (List.cons_ne_nil s rest)]
      simp [hne]

/-- In the directory of a file there is one name less on the stack. -/
theorem Normal.foldl_split_directoryOf (h : Normal path) :
    (Text.split '/' ((directoryOf path).getD ".")).foldl addSegment [] =
      ((Text.split '/' path).foldl addSegment []).drop 1 := by
  obtain ⟨names, hnames, rfl⟩ := normal_iff.mp h
  rw [foldl_split_join hnames]
  rcases List.eq_nil_or_concat' names with rfl | ⟨init, last, rfl⟩
  · rfl
  · obtain ⟨hinit, hlast⟩ := List.forall_mem_append.mp hnames
    rw [directoryOf_join hinit (List.forall_mem_singleton.mp hlast)]
    split
    · next hempty => rw [hempty]; rfl
    · rw [Option.getD_some, foldl_split_join hinit]
      simp

/-- A path seen from the directory of a file is one that leads up from the file first. -/
theorem Normal.relativeTo_directoryOf (h : Normal path) (reference : String) :
    relativeTo ((directoryOf path).getD ".") reference = relativeTo path ("../" ++ reference) := by
  refine relativeTo_congr ?_
  have hsplit : Text.split '/' ("../" ++ reference) = ".." :: Text.split '/' reference :=
    Text.split_append '/' ".." reference
  rw [h.foldl_split_directoryOf, hsplit, List.foldl_cons, addSegment_up]

/-! ### Following paths -/

theorem below_of_names (h : ∀ s ∈ names, IsName s) {root place : List String}
    (hplace : place ∈ Disk.wayFrom root names) : root <+: place := by
  induction names generalizing root with
  | nil => exact absurd hplace List.not_mem_nil
  | cons s rest ih =>
      obtain ⟨hs, hrest⟩ := List.forall_mem_cons.mp h
      have hway : Disk.wayFrom root (s :: rest) = (root ++ [s]) :: Disk.wayFrom (root ++ [s]) rest := by
        simp_all [Disk.wayFrom, IsName]
      rw [hway] at hplace
      rcases List.mem_cons.mp hplace with rfl | hplace
      · exact List.prefix_append root [s]
      · exact (List.prefix_append root [s]).trans (ih hrest hplace)

/-- **A normal path stays below** the place that it is followed from. -/
theorem Normal.staysBelow (h : Normal path) : StaysBelow path := by
  intro root place hplace
  obtain ⟨names, hnames, rfl⟩ := normal_iff.mp h
  cases names with
  | nil => exact absurd hplace List.not_mem_nil
  | cons s rest =>
      rw [split_join hnames (List.cons_ne_nil s rest)] at hplace
      exact below_of_names hnames hplace

end PipelineExpansion.Template
