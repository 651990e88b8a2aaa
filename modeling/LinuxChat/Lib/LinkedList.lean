import Mathlib.Data.List.Perm.Subperm
import LinuxChat.Lib.DList

/-!
# Linked lists with two end pointers

A doubly linked list as a program keeps it: the cells, a pointer to the first
and one to the last. Looking a cell up, changing its payload, appending a
cell and taking one out are written the way such programs write them, with an
error (`none`) for a null or freed pointer that is followed, a second `free`
and a walk that does not end.

`Links.Stores` says that the pointers store a table; each operation is the
table's (`Stores.find`, `Stores.update`, `Stores.pushBack`, `Stores.remove`)
and fails on none.
-/

namespace DList

variable {ι α : Type} [DecidableEq ι]

/-- Cells and end pointers. -/
structure Links (ι α : Type) where
  cells : Cells ι α
  front : Option ι
  back : Option ι
  deriving DecidableEq

namespace Links

/-- No cells. -/
def empty : Links ι α := ⟨Table.empty, none, none⟩

/-- Walk on to the first payload of some kind; the count bounds the passes. -/
def findLoop (cells : Cells ι α) (p : α → Bool) : Nat → Option ι → Option (Option ι)
  | 0, _ => none
  | _ + 1, none => some none
  | n + 1, some q =>
      match cells.get? q with
      | none => none
      | some cell => if p cell.data then some (some q) else findLoop cells p n cell.next

/-- The first cell of some kind. A walk longer than the number of cells is not going to end. -/
def find (s : Links ι α) (p : α → Bool) : Option (Option ι) :=
  findLoop s.cells p (s.cells.keys.length + 1) s.front

/-- Change the payload of a cell. -/
def update (s : Links ι α) (q : ι) (f : α → α) : Option (Links ι α) :=
  (s.cells.store (some q) fun c => { c with data := f c.data }).map fun cells => { s with cells }

/-- Append a new cell. -/
def pushBack (s : Links ι α) (q : ι) (a : α) (h : q ∉ s.cells.keys) : Option (Links ι α) :=
  let cells : Cells ι α := s.cells.append q ⟨none, none, a⟩ h
  if s.front = none then some ⟨cells, some q, some q⟩
  else do
    let cells ← cells.setNext s.back (some q)
    let cells ← cells.setPrev (some q) s.back
    some ⟨cells, s.front, some q⟩

/-- Lead everything past a cell: it is the only one, the first, the last or in the middle. -/
def unlink (s : Links ι α) (q : ι) : Option (Links ι α) :=
  if s.front = s.back then some ⟨s.cells, none, none⟩
  else if some q = s.front then do
    let front ← s.cells.next s.front
    let cells ← s.cells.setPrev front none
    some ⟨cells, front, s.back⟩
  else if some q = s.back then do
    let back ← s.cells.prev s.back
    let cells ← s.cells.setNext back none
    some ⟨cells, s.front, back⟩
  else do
    let cells ← s.cells.setNext (← s.cells.prev q) (← s.cells.next q)
    -- Both links are read again.
    let cells ← cells.setPrev (← cells.next q) (← cells.prev q)
    some ⟨cells, s.front, s.back⟩

/-- Take a cell out and free it. -/
def remove (s : Links ι α) (q : ι) : Option (Links ι α) := do
  let s ← s.unlink q
  let cells ← s.cells.free q
  some { s with cells }

/-- The pointers store the table. -/
structure Stores (s : Links ι α) (l : Table ι α) : Prop where
  front : s.front = first l.entries none
  back : s.back = last none l.entries
  linked : Linked s.cells.get? none l.entries none

variable {s : Links ι α} {l : Table ι α}

theorem stores_empty : (empty : Links ι α).Stores Table.empty := ⟨rfl, rfl, trivial⟩

/-- Every key is an allocated address. -/
theorem Stores.mem_keys (h : s.Stores l) {p : ι} (hp : p ∈ l.keys) : p ∈ s.cells.keys := by
  obtain ⟨u, hu⟩ := Table.mem_keys_iff.mp hp
  obtain ⟨c, hc, -⟩ := h.linked.exists_cell (Table.get?_eq_some_iff.mp hu)
  exact Table.mem_keys_iff.mpr ⟨c, hc⟩

/-! ## Lookup -/

theorem findLoop_eq {cells : Cells ι α} {before : Option ι} {entries : List (ι × α)}
    (hl : Linked cells.get? before entries none) (p : α → Bool) {n : Nat}
    (hn : entries.length < n) :
    findLoop cells p n (first entries none) =
      some ((entries.find? fun e => p e.2).map Prod.fst) := by
  induction entries generalizing before n with
  | nil =>
      cases n with
      | zero => exact absurd hn (Nat.not_lt_zero _)
      | succ n => rfl
  | cons e entries ih =>
      obtain ⟨q, a⟩ := e
      obtain ⟨hcell, hrest⟩ := hl
      cases n with
      | zero => exact absurd hn (Nat.not_lt_zero _)
      | succ n =>
          rw [first_cons, findLoop, hcell]
          by_cases hp : p a = true
          · simp [hp]
          · simp only [hp]
            rw [if_neg Bool.false_ne_true, ih hrest (Nat.lt_of_succ_lt_succ hn)]
            simp [hp]

/-- The walk ends, and finds what the table has. -/
theorem Stores.find (h : s.Stores l) (p : α → Bool) :
    s.find p = some ((l.entries.find? fun e => p e.2).map Prod.fst) := by
  have hlen : l.entries.length ≤ s.cells.keys.length := by
    have hsub := l.nodup.subperm fun q hq => h.mem_keys hq
    simpa using hsub.length_le
  rw [Links.find, h.front]
  exact findLoop_eq h.linked p (Nat.lt_succ_of_le hlen)

/-! ## Update -/

theorem Stores.update (h : s.Stores l) {q : ι} (hq : q ∈ l.keys) (f : α → α) :
    ∃ s', s.update q f = some s' ∧ s'.Stores (l.modify q f) ∧ s'.cells.keys = s.cells.keys := by
  let write : Cell ι α → Cell ι α := fun c => { c with data := f c.data }
  have hkept : ∀ e : ι × α, (if e.1 = q then (e.1, f e.2) else e).1 = e.1 := fun e => by
    split <;> rfl
  refine ⟨{ s with cells := s.cells.modify q write }, ?_, ?_, Table.keys_modify ..⟩
  · rw [Links.update, Cells.store, if_pos (h.mem_keys hq)]
    rfl
  · constructor
    · exact h.front.trans (first_map hkept).symm
    · exact h.back.trans (last_map hkept).symm
    · refine h.linked.map hkept fun e he => ?_
      obtain ⟨c, hc, hdata⟩ := h.linked.exists_cell he
      rw [Table.get?_modify, hc]
      by_cases heq : e.1 = q
      · rw [if_pos heq, if_pos heq, ← hdata]
        rfl
      · rw [if_neg heq, if_neg heq, ← hdata]
        rfl

/-! ## Append -/

theorem Stores.pushBack (h : s.Stores l) {p : ι} (hp : p ∉ s.cells.keys) (x : α) :
    ∃ s', s.pushBack p x hp = some s' ∧
      s'.Stores (l.append p x fun hmem => hp (h.mem_keys hmem)) := by
  have hnotin : p ∉ l.keys := fun hmem => hp (h.mem_keys hmem)
  let cells : Cells ι α := s.cells.append p ⟨none, none, x⟩ hp
  have hget : ∀ q, cells.get? q = if q = p then some ⟨none, none, x⟩
      else s.cells.get? q := fun q => Table.get?_append ..
  rcases l.entries.eq_nil_or_concat with hentries | ⟨a, ⟨b, y⟩, hentries⟩
  · have hfront : s.front = none := by rw [h.front, hentries]; rfl
    refine ⟨_, by rw [Links.pushBack, if_pos hfront], ?_, ?_, ?_⟩
    · simp [hentries]
    · simp [hentries]
    · rw [Table.entries_append, hentries]
      exact linked_singleton.mpr ((hget p).trans (if_pos rfl))
  · -- The last entry is led on to the new one, which is led back to it.
    rw [List.concat_eq_append] at hentries
    have hback : s.back = some b := by rw [h.back, hentries]; simp
    have hfront : s.front ≠ none := by rw [h.front, hentries]; cases a <;> simp
    have hold : ∀ q ∈ l.keys, cells.get? q = s.cells.get? q := fun q hq =>
      (hget q).trans (if_neg fun hqp => hnotin (by rw [← hqp]; exact hq))
    have hb : b ∈ l.keys := by simp [Table.keys, hentries]
    obtain ⟨cells₁, hstore₁, hkeys₁, hget₁⟩ := Cells.setNext_eq (m := cells) (p := b)
      (Table.mem_keys_iff.mpr (by rw [hold b hb]; exact Table.mem_keys_iff.mp (h.mem_keys hb)))
      (some p)
    obtain ⟨cells₂, hstore₂, -, hget₂⟩ := Cells.setPrev_eq (m := cells₁) (p := p)
      (by rw [hkeys₁]; exact Table.mem_keys_iff.mpr ⟨_, (hget p).trans (if_pos rfl)⟩) (some b)
    refine ⟨⟨cells₂, s.front, some p⟩, ?_, ?_, ?_, ?_⟩
    · rw [Links.pushBack, if_neg hfront, hback]
      simp only [cells] at hstore₁
      simp [hstore₁, hstore₂]
    · rw [h.front, Table.entries_append, hentries]
      cases a <;> simp
    · simp
    · refine h.linked.pushBack l.nodup (fun q hq => ?_) ?_
      · have hqp : p ≠ q := fun hqp => hnotin (by rw [hqp]; exact hq)
        rw [hget₂, hget₁, hold q hq, ← h.back, hback]
        simp [hqp, Function.comp_def]
      · have hbp : b ≠ p := fun hbp => hnotin (by rw [← hbp]; exact hb)
        rw [hget₂, hget₁, hget, ← h.back, hback]
        simp [hbp]

/-! ## Unlink -/

/-- The entry of `p` between the entries `a` and `b`. -/
structure Occurs (s : Links ι α) (p : ι) (u : α) (a b : List (ι × α)) :
    Prop where
  front : s.front = first a (some p)
  back : s.back = last (some p) b
  cell : s.cells.get? p = some ⟨last none a, first b none, u⟩
  allocated : ∀ q, q ∈ a.map Prod.fst ∨ q ∈ b.map Prod.fst → q ∈ s.cells.keys
  notBefore : p ∉ a.map Prod.fst
  notBehind : p ∉ b.map Prod.fst
  apart : ∀ q ∈ a.map Prod.fst, q ∉ b.map Prod.fst

theorem Stores.occurs (h : s.Stores l) {p : ι} {u : α} {a b : List (ι × α)}
    (hentries : l.entries = a ++ (p, u) :: b) : Occurs s p u a b := by
  have hnd := l.nodup
  rw [hentries, List.map_append, List.map_cons, List.nodup_append, List.nodup_cons] at hnd
  obtain ⟨-, ⟨hpb, -⟩, hdisj⟩ := hnd
  have hlinked := h.linked
  rw [hentries] at hlinked
  refine ⟨?_, ?_, (linked_middle.mp hlinked).2.1, fun q hq => h.mem_keys ?_, ?_, hpb, ?_⟩
  · rw [h.front, hentries]
    simp
  · rw [h.back, hentries]
    simp
  · simp only [Table.keys, hentries, List.map_append, List.map_cons, List.mem_append,
      List.mem_cons]
    exact hq.imp_right .inr
  · exact fun hp => hdisj p hp p List.mem_cons_self rfl
  · exact fun q hqa hqb => hdisj q hqa q (List.mem_cons_of_mem _ hqb) rfl

/-- The neighbours are linked to each other, and the end pointers pass the entry by. -/
def Unlinks (s : Links ι α) (p : ι) (a b : List (ι × α)) : Prop :=
  ∃ s', s.unlink p = some s' ∧ s'.front = first (a ++ b) none ∧
    s'.back = last none (a ++ b) ∧ s'.cells.keys = s.cells.keys ∧
    ∀ q, s'.cells.get? q = relink s.cells.get? (last none a) (first b none) q

variable {p q r : ι} {u y z : α} {a b : List (ι × α)}

/-- An entry with others behind it is not the last. -/
theorem Occurs.ne_back (h : Occurs s p u a ((q, y) :: b)) : some p ≠ s.back := by
  rw [h.back]
  intro heq
  exact h.notBehind (mem_of_last (heq.symm.trans (by simp)))

/-- An entry with others before it is not the first. -/
theorem Occurs.ne_front (h : Occurs s p u (a ++ [(r, z)]) b) : some p ≠ s.front := by
  rw [h.front]
  intro heq
  refine h.notBefore (mem_of_first (l := a ++ [(r, z)]) ?_)
  rw [heq]
  cases a <;> simp

theorem Occurs.unlinks_only (h : Occurs s p u [] []) : Unlinks s p [] [] := by
  have hone : s.front = s.back := h.front.trans h.back.symm
  refine ⟨_, if_pos hone, rfl, rfl, rfl, fun x => ?_⟩
  simp [relink]

theorem Occurs.unlinks_first (h : Occurs s p u [] ((q, y) :: b)) :
    Unlinks s p [] ((q, y) :: b) := by
  have hfront : s.front = some p := h.front
  have hne : s.front ≠ s.back := by
    rw [hfront]
    exact h.ne_back
  obtain ⟨cells, hstore, hkeys, hget⟩ := Cells.setPrev_eq (h.allocated q (.inr (by simp))) none
  refine ⟨⟨cells, some q, s.back⟩, ?_, by simp, ?_, hkeys, fun x => ?_⟩
  · rw [unlink, if_neg hne, hfront]
    simp [Cells.next_of_get? h.cell, hstore]
  · rw [h.back]
    simp
  · rw [hget, relink]
    simp

theorem Occurs.unlinks_last (h : Occurs s p u (a ++ [(r, z)]) []) :
    Unlinks s p (a ++ [(r, z)]) [] := by
  have hback : s.back = some p := h.back
  have hne : s.front ≠ s.back := by
    rw [hback]
    exact h.ne_front.symm
  obtain ⟨cells, hstore, hkeys, hget⟩ := Cells.setNext_eq (h.allocated r (.inl (by simp))) none
  refine ⟨⟨cells, s.front, some r⟩, ?_, ?_, by simp, hkeys, fun x => ?_⟩
  · rw [unlink, if_neg hne, if_neg h.ne_front, if_pos hback.symm, hback]
    simp [Cells.prev_of_get? h.cell, hstore]
  · rw [h.front]
    cases a <;> simp
  · rw [hget, relink]
    simp

theorem Occurs.unlinks_middle (h : Occurs s p u (a ++ [(r, z)]) ((q, y) :: b)) :
    Unlinks s p (a ++ [(r, z)]) ((q, y) :: b) := by
  have hne : s.front ≠ s.back := by
    rw [h.front, h.back]
    intro heq
    obtain ⟨x, hx, hxa⟩ : ∃ x, first (a ++ [(r, z)]) (some p) = some x ∧
        x ∈ (a ++ [(r, z)]).map Prod.fst := by cases a <;> simp
    exact h.apart x hxa (mem_of_last (heq.symm.trans hx))
  have hr := h.allocated r (.inl (by simp))
  have hlast : last none (a ++ [(r, z)]) = some r := by simp
  obtain ⟨cells₁, hstore₁, hkeys₁, hget₁⟩ := Cells.setNext_eq hr (some q)
  -- The first store leaves the links of the entry itself, which are read again.
  have hcell₁ : cells₁.get? p = some ⟨some r, some q, u⟩ := by
    have hrp : r ≠ p := fun hrp => h.notBefore (by simp [hrp])
    rw [hget₁, h.cell, hlast]
    simp [hrp]
  obtain ⟨cells₂, hstore₂, hkeys₂, hget₂⟩ := Cells.setPrev_eq (m := cells₁) (p := q)
    (by rw [hkeys₁]; exact h.allocated q (.inr (by simp))) (some r)
  refine ⟨⟨cells₂, s.front, s.back⟩, ?_, ?_, ?_, hkeys₂.trans hkeys₁, fun x => ?_⟩
  · rw [unlink, if_neg hne, if_neg h.ne_front, if_neg h.ne_back]
    simp [Cells.prev_of_get? h.cell, Cells.next_of_get? h.cell, hstore₁,
      Cells.prev_of_get? hcell₁, Cells.next_of_get? hcell₁, hstore₂]
  · rw [h.front]
    cases a <;> simp
  · rw [h.back]
    simp
  · rw [hget₂, hget₁, relink, hlast, Option.map_map]
    rfl

/-- Each of the four unlinking cases takes the entry out. -/
theorem Occurs.unlinks (h : Occurs s p u a b) : Unlinks s p a b := by
  rcases a.eq_nil_or_concat with rfl | ⟨a, ⟨r, z⟩, rfl⟩
  · cases b with
    | nil => exact h.unlinks_only
    | cons e b => exact h.unlinks_first
  · rw [List.concat_eq_append] at *
    cases b with
    | nil => exact h.unlinks_last
    | cons e b => exact h.unlinks_middle

theorem Stores.remove (h : s.Stores l) (hp : p ∈ l.keys) :
    ∃ s', s.remove p = some s' ∧ s'.Stores (l.erase p) := by
  obtain ⟨u, hu⟩ := Table.mem_keys_iff.mp hp
  obtain ⟨a, b, hentries⟩ := List.append_of_mem (Table.get?_eq_some_iff.mp hu)
  obtain ⟨s', hunlink, hfront, hback, hkeys, hget⟩ := (h.occurs hentries).unlinks
  have hnd := l.nodup
  rw [hentries] at hnd
  have hnp : p ∉ (a ++ b).map Prod.fst := by
    rw [List.map_append, List.map_cons, List.nodup_middle, List.nodup_cons,
      ← List.map_append] at hnd
    exact hnd.1
  have herase : (l.erase p).entries = a ++ b := by
    have hother : ∀ e ∈ a ++ b, e.1 ≠ p := fun e he hep => hnp (hep ▸ List.mem_map_of_mem he)
    rw [Table.entries_erase, hentries, List.filter_append, List.filter_cons_of_neg (by simp),
      ← List.filter_append, List.filter_eq_self]
    exact fun e he => decide_eq_true (hother e he)
  have hfree := Cells.free_eq (m := s'.cells) (p := p) (by rw [hkeys]; exact h.mem_keys hp)
  refine ⟨{ s' with cells := s'.cells.erase p }, ?_, ?_, ?_, ?_⟩
  · simp [Links.remove, hunlink, hfree]
  · rw [herase]; exact hfront
  · rw [herase]; exact hback
  · rw [herase]
    have hl := h.linked
    rw [hentries] at hl
    refine hl.unlink hnd fun q hq => ?_
    have hqp : q ≠ p := fun hqp => hnp (by rw [← hqp]; exact hq)
    rw [Table.get?_erase, if_neg hqp, hget]

end Links

end DList
