import Mathlib.Data.List.Nodup

/-!
# Ordered tables

A list of entries under pairwise distinct keys, in the order they were
appended: what a linked list of records is to code that only looks entries
up, changes them in place, appends and unlinks them. Distinctness is a field,
so no operation can lose it.
-/

/-- Entries of type `α` under keys of type `κ`. -/
structure Table (κ α : Type) where
  entries : List (κ × α)
  nodup : (entries.map Prod.fst).Nodup
  deriving DecidableEq

namespace Table

variable {κ α : Type} [DecidableEq κ]

/-- The table without entries. -/
def empty : Table κ α := ⟨[], by simp⟩

/-- The keys in use. -/
def keys (t : Table κ α) : List κ := t.entries.map Prod.fst

/-- The entry under a key. -/
def get? (t : Table κ α) (k : κ) : Option α := t.entries.lookup k

/-- Change one entry in place. -/
def modify (t : Table κ α) (k : κ) (f : α → α) : Table κ α where
  entries := t.entries.map fun e => if e.1 = k then (e.1, f e.2) else e
  nodup := by
    have hkeys : (t.entries.map fun e => if e.1 = k then (e.1, f e.2) else e).map Prod.fst
        = t.entries.map Prod.fst := by
      rw [List.map_map]
      refine List.map_congr_left fun e _ => ?_
      by_cases h : e.1 = k <;> simp [h]
    rw [hkeys]; exact t.nodup

/-- Add an entry at the end. -/
def append (t : Table κ α) (k : κ) (a : α) (h : k ∉ t.keys) : Table κ α where
  entries := t.entries ++ [(k, a)]
  nodup := by
    rw [List.map_append, List.nodup_append]
    refine ⟨t.nodup, by simp, fun x hx y hy => ?_⟩
    simp only [List.map_cons, List.map_nil, List.mem_singleton] at hy
    exact fun hxy => h (by rw [keys, ← hy, ← hxy]; exact hx)

/-- Unlink an entry. -/
def erase (t : Table κ α) (k : κ) : Table κ α where
  entries := t.entries.filter fun e => e.1 ≠ k
  nodup := t.nodup.sublist (List.filter_sublist.map _)

omit [DecidableEq κ] in
@[simp] theorem entries_append (t : Table κ α) (k : κ) (a : α) (h : k ∉ t.keys) :
    (t.append k a h).entries = t.entries ++ [(k, a)] := rfl

@[simp] theorem entries_erase (t : Table κ α) (k : κ) :
    (t.erase k).entries = t.entries.filter fun e => e.1 ≠ k := rfl

omit [DecidableEq κ] in
@[simp] theorem keys_empty : (empty : Table κ α).keys = [] := rfl

@[simp] theorem get?_empty (k : κ) : (empty : Table κ α).get? k = none := rfl

theorem get?_eq_some_iff {t : Table κ α} {k : κ} {a : α} :
    t.get? k = some a ↔ (k, a) ∈ t.entries := by
  obtain ⟨entries, hnd⟩ := t
  simp only [get?]
  induction entries with
  | nil => simp
  | cons e rest ih =>
      obtain ⟨j, b⟩ := e
      simp only [List.map_cons, List.nodup_cons] at hnd
      obtain ⟨hj, hrest⟩ := hnd
      by_cases h : k = j
      · subst h
        -- The keys behind an entry differ from its own, so the first hit is the only one.
        have hno : (k, a) ∉ rest := fun hm => hj (List.mem_map_of_mem (f := Prod.fst) hm)
        simp [hno, eq_comm]
      · have hb : (k == j) = false := by simpa using h
        rw [List.lookup_cons, hb]
        simpa [h] using ih hrest

theorem get?_eq_none_iff {t : Table κ α} {k : κ} : t.get? k = none ↔ k ∉ t.keys := by
  constructor
  · intro h hm
    obtain ⟨⟨j, a⟩, hmem, rfl⟩ := List.mem_map.mp hm
    rw [get?_eq_some_iff.mpr hmem] at h
    cases h
  · intro h
    cases hg : t.get? k with
    | none => rfl
    | some a => exact absurd (List.mem_map_of_mem (f := Prod.fst) (get?_eq_some_iff.mp hg)) h

theorem mem_keys_iff {t : Table κ α} {k : κ} : k ∈ t.keys ↔ ∃ a, t.get? k = some a := by
  rw [← not_iff_not, ← get?_eq_none_iff, Option.eq_none_iff_forall_ne_some]
  simp

/-- Only one entry is under a key. -/
theorem filter_key {t : Table κ α} {k : κ} {a : α} (h : t.get? k = some a) :
    (t.entries.filter fun e => e.1 = k) = [(k, a)] := by
  obtain ⟨before, behind, hsplit⟩ := List.append_of_mem (get?_eq_some_iff.mp h)
  have hnd := t.nodup
  rw [hsplit, List.map_append, List.map_cons, List.nodup_middle, List.nodup_cons] at hnd
  have hother : ∀ e ∈ before ++ behind, e.1 ≠ k := by
    intro e he hek
    have hmem := List.mem_map_of_mem (f := Prod.fst) he
    rw [hek, List.map_append] at hmem
    exact hnd.1 hmem
  have hnil : ∀ l, l ⊆ before ++ behind → l.filter (fun e => e.1 = k) = [] := by
    intro l hl
    rw [List.filter_eq_nil_iff]
    exact fun e he => by simpa using hother e (hl he)
  rw [hsplit, List.filter_append, List.filter_cons_of_pos (by simp),
    hnil before (List.subset_append_left ..), hnil behind (List.subset_append_right ..)]
  rfl

/-- Different entries are under different keys. -/
theorem ne_of_get? {t : Table κ α} {j k : κ} {a b : α} (ha : t.get? j = some a)
    (hb : t.get? k = some b) (hne : a ≠ b) : j ≠ k := by
  rintro rfl
  rw [ha] at hb
  exact hne (Option.some.inj hb)

/-- What an update of one entry does to a lookup. -/
theorem get?_modify (t : Table κ α) (k j : κ) (f : α → α) :
    (t.modify k f).get? j = if j = k then (t.get? j).map f else t.get? j := by
  apply Option.ext
  intro b
  rw [get?_eq_some_iff]
  simp only [modify, List.mem_map, Prod.exists]
  by_cases hj : j = k
  · subst hj
    simp only [if_true, Option.map_eq_some_iff, get?_eq_some_iff]
    constructor
    · rintro ⟨i, a, hmem, heq⟩
      by_cases hi : i = j
      · simp only [hi, if_true, Prod.mk.injEq, true_and] at heq
        exact ⟨a, hi ▸ hmem, heq⟩
      · simp only [hi, if_false, Prod.mk.injEq, false_and] at heq
    · rintro ⟨a, hmem, rfl⟩
      exact ⟨j, a, hmem, by simp⟩
  · simp only [if_neg hj, get?_eq_some_iff]
    constructor
    · rintro ⟨i, a, hmem, heq⟩
      by_cases hi : i = k
      · simp only [hi, if_true, Prod.mk.injEq] at heq
        exact absurd heq.1.symm hj
      · simp only [hi, if_false, Prod.mk.injEq] at heq
        rwa [← heq.1, ← heq.2]
    · exact fun hmem => ⟨j, b, hmem, by simp [hj]⟩

@[simp] theorem get?_modify_self (t : Table κ α) (k : κ) (f : α → α) :
    (t.modify k f).get? k = (t.get? k).map f := by
  rw [get?_modify, if_pos rfl]

theorem get?_modify_of_ne {t : Table κ α} {k j : κ} (h : j ≠ k) (f : α → α) :
    (t.modify k f).get? j = t.get? j := by
  rw [get?_modify, if_neg h]

/-- An updated entry comes from the entry under the same key. -/
theorem exists_of_get?_modify {t : Table κ α} {k j : κ} {f : α → α} {b : α}
    (h : (t.modify k f).get? j = some b) :
    ∃ a, t.get? j = some a ∧ b = if j = k then f a else a := by
  rw [get?_modify] at h
  by_cases hj : j = k
  · rw [if_pos hj, Option.map_eq_some_iff] at h
    obtain ⟨a, ha, rfl⟩ := h
    exact ⟨a, ha, by simp [hj]⟩
  · rw [if_neg hj] at h
    exact ⟨b, h, by simp [hj]⟩

@[simp] theorem keys_modify (t : Table κ α) (k : κ) (f : α → α) : (t.modify k f).keys = t.keys := by
  simp only [keys, modify, List.map_map]
  refine List.map_congr_left fun e _ => ?_
  by_cases h : e.1 = k <;> simp [h]

theorem get?_append (t : Table κ α) (k j : κ) (a : α) (h : k ∉ t.keys) :
    (t.append k a h).get? j = if j = k then some a else t.get? j := by
  apply Option.ext
  intro b
  rw [get?_eq_some_iff]
  simp only [append, List.mem_append, List.mem_singleton, Prod.mk.injEq]
  by_cases hj : j = k
  · subst hj
    have hno : (j, b) ∉ t.entries := fun hm => h (List.mem_map_of_mem (f := Prod.fst) hm)
    simp [hno, eq_comm]
  · simp [hj, get?_eq_some_iff]

theorem get?_erase (t : Table κ α) (k j : κ) :
    (t.erase k).get? j = if j = k then none else t.get? j := by
  apply Option.ext
  intro b
  rw [get?_eq_some_iff]
  by_cases hj : j = k <;> simp [erase, hj, get?_eq_some_iff]

/-- Make the entry under a key this one. -/
def set (t : Table κ α) (k : κ) (a : α) : Table κ α :=
  if h : k ∈ t.keys then t.modify k fun _ => a else t.append k a h

theorem get?_set (t : Table κ α) (k j : κ) (a : α) :
    (t.set k a).get? j = if j = k then some a else t.get? j := by
  unfold set
  split
  · rename_i hk
    obtain ⟨b, hb⟩ := mem_keys_iff.mp hk
    rw [get?_modify]
    by_cases hj : j = k
    · rw [if_pos hj, if_pos hj, hj, hb]
      rfl
    · rw [if_neg hj, if_neg hj]
  · rw [get?_append]

end Table
