import LinuxChat.Lib.Table

/-!
# Files of lines

A directory as a map from paths to lines. An append creates the file, a rename
moves a file and replaces an existing target. `Contains` asks whether a line
is in some file: appends and creations keep it, a rename does so unless it
replaces a file (`contains_rename`).
-/

/-- The files under their paths. -/
abbrev Files (π ℓ : Type) := Table π (List ℓ)

namespace Files

variable {π ℓ : Type} [DecidableEq π]

/-- `fopen(path, "a")`, a line, `fclose`. -/
def appendLine (files : Files π ℓ) (path : π) (line : ℓ) : Files π ℓ :=
  Table.set files path ((files.get? path).getD [] ++ [line])

/-- `fopen(path, "w")`, a line, `fclose`: what was in the file is gone. -/
def create (files : Files π ℓ) (path : π) (line : ℓ) : Files π ℓ := Table.set files path [line]

/-- `rename(old, new)` of a file that exists. -/
def rename (files : Files π ℓ) (old new : π) : Files π ℓ :=
  match files.get? old with
  | none => files
  | some lines => if old = new then files else Table.set (Table.erase files old) new lines

/-- The line is in some file. -/
def Contains (files : Files π ℓ) (line : ℓ) : Prop :=
  ∃ path lines, files.get? path = some lines ∧ line ∈ lines

variable {files : Files π ℓ} {path old new : π} {line line' : ℓ}

theorem contains_appendLine_self : Contains (files.appendLine path line) line :=
  ⟨path, _, by rw [appendLine, Table.get?_set, if_pos rfl], List.mem_append_right _ (by simp)⟩

/-- An append keeps what there is. -/
theorem Contains.appendLine (h : Contains files line) (path : π) (line' : ℓ) :
    Contains (Files.appendLine files path line') line := by
  obtain ⟨path₀, lines, hget, hmem⟩ := h
  by_cases hp : path₀ = path
  · refine ⟨path, _, by rw [Files.appendLine, Table.get?_set, if_pos rfl], ?_⟩
    rw [← hp, hget]
    exact List.mem_append_left _ hmem
  · exact ⟨path₀, lines, by rw [Files.appendLine, Table.get?_set, if_neg hp, hget], hmem⟩

/-- A new file keeps what there is in others. -/
theorem Contains.create (h : Contains files line) (hnone : files.get? path = none) (line' : ℓ) :
    Contains (Files.create files path line') line := by
  obtain ⟨path₀, lines, hget, hmem⟩ := h
  have hne : path₀ ≠ path := by
    rintro rfl
    rw [hnone] at hget
    cases hget
  exact ⟨path₀, lines, by rw [Files.create, Table.get?_set, if_neg hne, hget], hmem⟩

/-- A rename that does not replace another file keeps what there is. -/
theorem Contains.rename (h : Contains files line)
    (hfree : old = new ∨ files.get? old = none ∨ files.get? new = none) :
    Contains (Files.rename files old new) line := by
  unfold Files.rename
  cases hold : files.get? old with
  | none => exact h
  | some moved =>
      by_cases hsame : old = new
      · simpa [hsame] using h
      · have hnew : files.get? new = none := by
          rcases hfree with heq | hnone | hnone
          · exact absurd heq hsame
          · rw [hold] at hnone
            cases hnone
          · exact hnone
        obtain ⟨path₀, lines, hget, hmem⟩ := h
        simp only [if_neg hsame]
        by_cases hp : path₀ = old
        · -- The line moves with its file.
          rw [hp, hold, Option.some.injEq] at hget
          exact ⟨new, moved, by rw [Table.get?_set, if_pos rfl], hget ▸ hmem⟩
        · have hne : path₀ ≠ new := by
            rintro rfl
            rw [hnew] at hget
            cases hget
          refine ⟨path₀, lines, ?_, hmem⟩
          rw [Table.get?_set, if_neg hne, Table.get?_erase, if_neg hp, hget]

end Files
