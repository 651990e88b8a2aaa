import Mathlib.Data.List.TakeWhile

/-!
# Paths

A path is a list with separators, a run of them counting as one. `FileIn` says
that a path names a directory and one component in it: behind a directory this
is what remains without the separators it starts with (`fileIn_append_iff`).
`visited` follows `.` and `..` from a working directory.
-/

namespace Path

variable {α : Type} [DecidableEq α] {sep dot : α} {path file rest : List α}
  {dir : List (List α)}

/-- What stands between the separators. -/
def components (sep : α) (path : List α) : List (List α) :=
  (path.splitOn sep).filter fun c => !c.isEmpty

/-- The path is one of this directory and a last component. -/
def FileIn (sep : α) (dir : List (List α)) (path file : List α) : Prop :=
  ∃ d, path = d ++ sep :: file ∧ components sep d = dir ∧ sep ∉ file

/-- Where one more component leads. -/
def enter (dot : α) (dir : List (List α)) (c : List α) : List (List α) :=
  if c = [dot] then dir else if c = [dot, dot] then dir.dropLast else dir ++ [c]

/-- Where the components of a path lead, one after the other. -/
def visited (sep dot : α) (cwd : List (List α)) (path : List α) : List (List (List α)) :=
  (components sep path).scanl (enter dot) cwd

/-! ## Components -/

theorem components_append_sep (sep : α) (a b : List α) :
    components sep (a ++ sep :: b) = components sep a ++ components sep b := by
  rw [components, List.splitOn_append_cons_self, List.filter_append]
  rfl

/-- A path without components is all separators. -/
theorem components_eq_nil_iff : components sep path = [] ↔ ∀ x ∈ path, x = sep := by
  induction path with
  | nil => simp [components]
  | cons y path ih =>
      by_cases hy : y = sep
      · subst hy
        rw [show components y (y :: path) = components y path from
          components_append_sep y [] path, ih]
        simp
      · -- A first component that is not empty.
        obtain ⟨c, cs, hsplit⟩ := List.exists_cons_of_ne_nil (List.splitOn_ne_nil sep path)
        rw [components, List.splitOn_cons_eq_if_modifyHead, if_neg (by simpa using hy), hsplit]
        simp [hy]

theorem components_of_notMem (h : sep ∉ file) (hne : file ≠ []) :
    components sep file = [file] := by
  rw [components, List.splitOn_eq_singleton h]
  simp [hne]

/-- Separators behind a path add no component. -/
theorem components_append_replicate (d : List α) (n : Nat) :
    components sep (d ++ List.replicate n sep) = components sep d := by
  cases n with
  | zero => rw [List.replicate_zero, List.append_nil]
  | succ n =>
      have hnone : components sep (List.replicate n sep) = [] :=
        components_eq_nil_iff.mpr fun x hx => List.eq_of_mem_replicate hx
      rw [List.replicate_succ, components_append_sep, hnone, List.append_nil]

/-! ## Files in a directory -/

omit [DecidableEq α] in
/-- Only one separator is the last. -/
theorem last_sep {d d' file' : List α} (h : d ++ sep :: file = d' ++ sep :: file')
    (hfile : sep ∉ file) (hfile' : sep ∉ file') : d = d' ∧ file = file' := by
  rcases List.append_eq_append_iff.mp h with ⟨as, rfl, htail⟩ | ⟨as, rfl, htail⟩
  · cases as with
    | nil => exact ⟨(List.append_nil _).symm, (List.cons.inj htail).2⟩
    | cons x as =>
        have hmem : sep ∈ file := by
          rw [(List.cons.inj htail).2]
          simp
        exact absurd hmem hfile
  · cases as with
    | nil => exact ⟨List.append_nil _, (List.cons.inj htail).2.symm⟩
    | cons x as =>
        have hmem : sep ∈ file' := by
          rw [(List.cons.inj htail).2]
          simp
        exact absurd hmem hfile'

omit [DecidableEq α] in
theorem exists_last_sep (h : sep ∈ path) :
    ∃ d file, path = d ++ sep :: file ∧ sep ∉ file := by
  obtain ⟨front, back, hrev, hfront⟩ := List.eq_append_cons_of_mem (List.mem_reverse.mpr h)
  refine ⟨back.reverse, front.reverse, ?_, by rwa [List.mem_reverse]⟩
  rw [← List.reverse_reverse path, hrev]
  simp

theorem dropWhile_eq_self (h : sep ∉ file) : file.dropWhile (· == sep) = file := by
  refine List.dropWhile_eq_self_iff.mpr fun hpos heq => h ?_
  rw [beq_iff_eq] at heq
  exact heq ▸ List.getElem_mem hpos

/-- Behind a directory, the file is what remains without the separators in front. -/
theorem fileIn_append_iff (d : List α) :
    FileIn sep (components sep d) (d ++ sep :: rest) file ↔
      rest.dropWhile (· == sep) = file ∧ sep ∉ file := by
  constructor
  · rintro ⟨d', hpath, hdir, hfile⟩
    refine ⟨?_, hfile⟩
    by_cases hrest : sep ∈ rest
    · -- The last separator stands in the rest, and only separators before it.
      obtain ⟨front, back, rfl, hback⟩ := exists_last_sep hrest
      have hlast : (d ++ sep :: front) ++ sep :: back = d' ++ sep :: file := by
        rw [← hpath, List.append_assoc, List.cons_append]
      obtain ⟨rfl, rfl⟩ := last_sep hlast hback hfile
      rw [components_append_sep, List.append_right_eq_self, components_eq_nil_iff] at hdir
      have hall : ∀ x ∈ front, (x == sep) = true := fun x hx => beq_iff_eq.mpr (hdir x hx)
      rw [List.dropWhile_append_of_pos hall, List.dropWhile_cons_of_pos (by simp),
        dropWhile_eq_self hfile]
    · obtain ⟨-, rfl⟩ := last_sep hpath hrest hfile
      exact dropWhile_eq_self hfile
  · rintro ⟨rfl, hfile⟩
    have hseps : rest.takeWhile (· == sep) =
        List.replicate (rest.takeWhile (· == sep)).length sep := by
      apply List.eq_replicate_of_mem
      intro x hx
      have hsep := List.mem_takeWhile_imp hx
      simpa using hsep
    refine ⟨d ++ rest.takeWhile (· == sep), ?_, ?_, hfile⟩
    · rw [List.append_assoc, List.append_right_inj, List.append_cons, hseps,
        ← List.replicate_succ', List.replicate_succ, List.cons_append, ← hseps,
        List.takeWhile_append_dropWhile]
    · rw [hseps, components_append_replicate]

/-! ## Following a path -/

@[simp] theorem enter_dot (cwd : List (List α)) : enter dot cwd [dot] = cwd := if_pos rfl

@[simp] theorem enter_dots (cwd : List (List α)) (c : List α) :
    enter dot (cwd ++ [c]) [dot, dot] = cwd := by
  rw [enter, if_neg (by simp), if_pos rfl, List.dropLast_concat]

theorem enter_name (cwd : List (List α)) {c : List α} (hdot : c ≠ [dot])
    (hdots : c ≠ [dot, dot]) : enter dot cwd c = cwd ++ [c] := by
  rw [enter, if_neg hdot, if_neg hdots]

/-- A path to a file of a directory leads where the directory does, and then into the file. -/
theorem FileIn.visited (h : FileIn sep dir path file) (hne : file ≠ []) (hdot : file ≠ [dot])
    (hdots : file ≠ [dot, dot]) (cwd : List (List α)) :
    Path.visited sep dot cwd path =
      dir.scanl (enter dot) cwd ++ [dir.foldl (enter dot) cwd ++ [file]] := by
  obtain ⟨d, rfl, rfl, hfile⟩ := h
  rw [Path.visited, components_append_sep, components_of_notMem hfile hne]
  generalize components sep d = cs
  induction cs generalizing cwd with
  | nil =>
      rw [List.nil_append, List.scanl_cons, List.scanl_nil, enter_name cwd hdot hdots]
      rfl
  | cons c cs ih =>
      rw [List.cons_append, List.scanl_cons, ih, List.scanl_cons, List.cons_append,
        List.foldl_cons]

end Path
