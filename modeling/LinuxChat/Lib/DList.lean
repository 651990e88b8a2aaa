import Mathlib.Data.List.Induction
import Mathlib.Data.List.Nodup
import LinuxChat.Lib.Table

/-!
# Doubly linked lists in memory

Cells with two links and a payload, at addresses. Reading or writing through
a null or a freed address is an error (`none`).

`Linked` is a stretch of a list: its cells, and where its two outer links
lead. A stretch is cut and joined by `linked_append`, and led elsewhere by a
write to the outer link of its first or last cell; `Linked.pushBack` and
`Linked.unlink` are what these make of appending and unlinking a cell.
-/

/-- A list node. -/
structure Cell (ι α : Type) where
  prev : Option ι
  next : Option ι
  data : α
  deriving DecidableEq

/-- The allocated cells. -/
abbrev Cells (ι α : Type) := Table ι (Cell ι α)

namespace Cells

variable {ι α : Type} [DecidableEq ι]

/-- Read `p->next`. -/
def next (m : Cells ι α) (p : Option ι) : Option (Option ι) := (p.bind m.get?).map Cell.next

/-- Read `p->prev`. -/
def prev (m : Cells ι α) (p : Option ι) : Option (Option ι) := (p.bind m.get?).map Cell.prev

/-- Change the cell at `p`. -/
def store (m : Cells ι α) (p : Option ι) (f : Cell ι α → Cell ι α) : Option (Cells ι α) :=
  match p with
  | none => none
  | some p => if p ∈ m.keys then some (m.modify p f) else none

/-- `p->next = q`. -/
def setNext (m : Cells ι α) (p q : Option ι) : Option (Cells ι α) :=
  m.store p fun c => { c with next := q }

/-- `p->prev = q`. -/
def setPrev (m : Cells ι α) (p q : Option ι) : Option (Cells ι α) :=
  m.store p fun c => { c with prev := q }

/-- `free(p)`. -/
def free (m : Cells ι α) (p : ι) : Option (Cells ι α) :=
  if p ∈ m.keys then some (m.erase p) else none

variable {m : Cells ι α} {p : ι} {c : Cell ι α}

theorem next_of_get? (h : m.get? p = some c) : m.next (some p) = some c.next := by
  simp [next, h]

theorem prev_of_get? (h : m.get? p = some c) : m.prev (some p) = some c.prev := by
  simp [prev, h]

/-- A write of a `next` link. -/
theorem setNext_eq (h : p ∈ m.keys) (q : Option ι) :
    ∃ m', m.setNext (some p) q = some m' ∧ m'.keys = m.keys ∧ ∀ x, m'.get? x =
      (m.get? x).map fun c => { c with next := if some p = some x then q else c.next } := by
  refine ⟨m.modify p _, if_pos h, Table.keys_modify .., fun x => ?_⟩
  rw [Table.get?_modify]
  by_cases hx : x = p
  · simp [hx]
  · simp [hx, Ne.symm hx]

/-- A write of a `prev` link. -/
theorem setPrev_eq (h : p ∈ m.keys) (q : Option ι) :
    ∃ m', m.setPrev (some p) q = some m' ∧ m'.keys = m.keys ∧ ∀ x, m'.get? x =
      (m.get? x).map fun c => { c with prev := if some p = some x then q else c.prev } := by
  refine ⟨m.modify p _, if_pos h, Table.keys_modify .., fun x => ?_⟩
  rw [Table.get?_modify]
  by_cases hx : x = p
  · simp [hx]
  · simp [hx, Ne.symm hx]

theorem free_eq (h : p ∈ m.keys) : m.free p = some (m.erase p) := if_pos h

end Cells

namespace DList

variable {ι α : Type}

/-! ## Stretches -/

/-- The address of the first cell, or what comes behind an empty stretch. -/
def first : List (ι × α) → Option ι → Option ι
  | [], after => after
  | (p, _) :: _, _ => some p

/-- The address of the last cell, or what comes before an empty stretch. -/
def last : Option ι → List (ι × α) → Option ι
  | before, [] => before
  | _, (p, _) :: rest => last (some p) rest

/-- The cells `l` are linked to each other, the first back to `before` and the last on to
`after`. -/
def Linked (get : ι → Option (Cell ι α)) : Option ι → List (ι × α) → Option ι → Prop
  | _, [], _ => True
  | before, (p, a) :: rest, after =>
      get p = some ⟨before, first rest after, a⟩ ∧ Linked get (some p) rest after

variable {get get' : ι → Option (Cell ι α)} {before after : Option ι} {l l' : List (ι × α)}
  {p : ι} {a : α}

@[simp] theorem first_nil : first ([] : List (ι × α)) after = after := rfl

@[simp] theorem first_cons (e : ι × α) : first (e :: l) after = some e.1 := rfl

@[simp] theorem last_nil : last before ([] : List (ι × α)) = before := rfl

@[simp] theorem last_cons (e : ι × α) : last before (e :: l) = last (some e.1) l := rfl

@[simp] theorem first_append : first (l ++ l') after = first l (first l' after) := by
  cases l <;> rfl

@[simp] theorem last_append : last before (l ++ l') = last (last before l) l' := by
  induction l generalizing before with
  | nil => rfl
  | cons e l ih => exact ih

theorem linked_append : Linked get before (l ++ l') after ↔
    Linked get before l (first l' after) ∧ Linked get (last before l) l' after := by
  induction l generalizing before with
  | nil => simp [Linked]
  | cons e l ih =>
      obtain ⟨p, a⟩ := e
      simp [Linked, ih, and_assoc]

theorem linked_singleton :
    Linked get before [(p, a)] after ↔ get p = some ⟨before, after, a⟩ := by
  simp [Linked]

/-- A list around one of its cells. -/
theorem linked_middle : Linked get before (l ++ (p, a) :: l') after ↔
    Linked get before l (some p) ∧ get p = some ⟨last before l, first l' after, a⟩ ∧
      Linked get (some p) l' after := by
  rw [linked_append]
  rfl

/-- Only the cells of a stretch matter to it. -/
theorem Linked.congr (hl : Linked get before l after)
    (hget : ∀ q ∈ l.map Prod.fst, get' q = get q) :
    Linked get' before l after := by
  induction l generalizing before with
  | nil => trivial
  | cons e l ih =>
      obtain ⟨hcell, hrest⟩ := hl
      refine ⟨?_, ih hrest fun q hq => hget q (List.mem_cons_of_mem _ hq)⟩
      rw [hget e.1 List.mem_cons_self]
      exact hcell

theorem Linked.exists_cell (hl : Linked get before l after) {q : ι} {b : α} (hq : (q, b) ∈ l) :
    ∃ c, get q = some c ∧ c.data = b := by
  induction l generalizing before with
  | nil => cases hq
  | cons e l ih =>
      rcases List.mem_cons.mp hq with rfl | hq
      · exact ⟨_, hl.1, rfl⟩
      · exact ih hl.2 hq

theorem mem_of_first {q : ι} (hq : first l none = some q) : q ∈ l.map Prod.fst := by
  cases l with
  | nil => cases hq
  | cons e l => cases hq; exact List.mem_cons_self

theorem mem_of_last {q : ι} (hq : last none l = some q) : q ∈ l.map Prod.fst := by
  induction l using List.reverseRecOn with
  | nil => cases hq
  | append_singleton l e _ =>
      rw [last_append] at hq
      cases hq
      simp

/-! ## Payloads -/

section Payloads

variable {g : ι × α → ι × α}

theorem first_map (hg : ∀ e, (g e).1 = e.1) : first (l.map g) after = first l after := by
  cases l with
  | nil => rfl
  | cons e l => rw [List.map_cons, first_cons, first_cons, hg]

theorem last_map (hg : ∀ e, (g e).1 = e.1) : last before (l.map g) = last before l := by
  induction l generalizing before with
  | nil => rfl
  | cons e l ih => rw [List.map_cons, last_cons, last_cons, hg, ih]

/-- Payloads may change where they are. -/
theorem Linked.map (hl : Linked get before l after) (hg : ∀ e, (g e).1 = e.1)
    (hget : ∀ e ∈ l, get' e.1 = (get e.1).map fun c => { c with data := (g e).2 }) :
    Linked get' before (l.map g) after := by
  induction l generalizing before with
  | nil => trivial
  | cons e l ih =>
      obtain ⟨hcell, hrest⟩ := hl
      show get' (g e).1 = some ⟨before, first (l.map g) after, (g e).2⟩ ∧
        Linked get' (some (g e).1) (l.map g) after
      rw [hg, first_map hg, hget e List.mem_cons_self, hcell]
      exact ⟨rfl, ih hrest fun e' he' => hget e' (List.mem_cons_of_mem _ he')⟩

end Payloads

/-! ## Walks -/

/-- Following a link from `start` visits `ps`, each address allocated, and ends at null. -/
def Walk (link : ι → Option (Option ι)) : Option ι → List ι → Prop
  | start, [] => start = none
  | start, p :: ps => start = some p ∧ ∃ next, link p = some next ∧ Walk link next ps

/-- The links of a list lead from its first cell to its last and then to null. -/
theorem Linked.walk_next (hl : Linked get before l none) :
    Walk (fun q => (get q).map Cell.next) (first l none) (l.map Prod.fst) := by
  induction l generalizing before with
  | nil => rfl
  | cons e l ih =>
      obtain ⟨p, a⟩ := e
      obtain ⟨hcell, hrest⟩ := hl
      exact ⟨rfl, first l none, by simp [hcell], ih hrest⟩

/-- `prev` leads from the last cell back over all of them. -/
theorem Linked.walk_prev (hl : Linked get none l after) :
    Walk (fun q => (get q).map Cell.prev) (last none l) (l.map Prod.fst).reverse := by
  induction l using List.reverseRecOn generalizing after with
  | nil => rfl
  | append_singleton l e ih =>
      obtain ⟨p, a⟩ := e
      obtain ⟨hfront, hcell⟩ := linked_append.mp hl
      rw [linked_singleton] at hcell
      rw [List.map_append, List.reverse_append]
      exact ⟨by simp, last none l, by simp [hcell], ih hfront⟩

/-! ## Writes to the outer links -/

variable [DecidableEq ι]

/-- The last cell of a stretch is led on to somewhere else. -/
theorem Linked.setAfter (hl : Linked get before l after) (hnd : (l.map Prod.fst).Nodup)
    {after' : Option ι}
    (hget : ∀ q ∈ l.map Prod.fst, get' q = (get q).map fun c =>
      { c with next := if last none l = some q then after' else c.next }) :
    Linked get' before l after' := by
  induction l using List.reverseRecOn with
  | nil => trivial
  | append_singleton l e _ =>
      obtain ⟨p, a⟩ := e
      rw [List.map_append, List.nodup_append] at hnd
      obtain ⟨hfront, hlast⟩ := linked_append.mp hl
      rw [linked_singleton] at hlast
      refine linked_append.mpr ⟨hfront.congr fun q hq => ?_, linked_singleton.mpr ?_⟩
      · -- Before the last cell nothing changes.
        have hne : p ≠ q := fun hpq => hnd.2.2 q hq p (by simp) hpq.symm
        rw [hget q (by rw [List.map_append]; exact List.mem_append_left _ hq)]
        simp [hne]
      · rw [hget p (by simp), hlast]
        simp

/-- The first cell of a stretch is led back to somewhere else. -/
theorem Linked.setBefore (hl : Linked get before l after) (hnd : (l.map Prod.fst).Nodup)
    {before' : Option ι}
    (hget : ∀ q ∈ l.map Prod.fst, get' q = (get q).map fun c =>
      { c with prev := if first l none = some q then before' else c.prev }) :
    Linked get' before' l after := by
  cases l with
  | nil => trivial
  | cons e l =>
      obtain ⟨p, a⟩ := e
      rw [List.map_cons, List.nodup_cons] at hnd
      obtain ⟨hfirst, hrest⟩ := hl
      refine ⟨?_, hrest.congr fun q hq => ?_⟩
      · rw [hget p (by simp), hfirst]
        simp
      · have hne : p ≠ q := fun hpq => hnd.1 (hpq ▸ hq)
        rw [hget q (List.mem_cons_of_mem _ hq)]
        simp [hne]

/-- A new cell behind the last one. -/
theorem Linked.pushBack (hl : Linked get none l none) (hnd : (l.map Prod.fst).Nodup)
    (hold : ∀ q ∈ l.map Prod.fst, get' q = (get q).map fun c =>
      { c with next := if last none l = some q then some p else c.next })
    (hnew : get' p = some ⟨last none l, none, a⟩) : Linked get' none (l ++ [(p, a)]) none :=
  linked_append.mpr ⟨hl.setAfter hnd hold, linked_singleton.mpr hnew⟩

/-- The cell at `q` once `before` and `after` are linked to each other. -/
def relink (get : ι → Option (Cell ι α)) (before after : Option ι) (q : ι) :
    Option (Cell ι α) :=
  (get q).map fun c =>
    { prev := if after = some q then before else c.prev
      next := if before = some q then after else c.next
      data := c.data }

/-- Any one cell is taken out by linking its neighbours to each other. -/
theorem Linked.unlink (hl : Linked get none (l ++ (p, a) :: l') none)
    (hnd : ((l ++ (p, a) :: l').map Prod.fst).Nodup)
    (hget : ∀ q ∈ (l ++ l').map Prod.fst, get' q = relink get (last none l) (first l' none) q) :
    Linked get' none (l ++ l') none := by
  obtain ⟨hfront, -, hrear⟩ := linked_middle.mp hl
  rw [List.map_append, List.map_cons, List.nodup_append, List.nodup_cons] at hnd
  obtain ⟨hndl, ⟨-, hndl'⟩, hdisj⟩ := hnd
  rw [List.map_append] at hget
  refine linked_append.mpr
    ⟨hfront.setAfter hndl fun q hq => ?_, hrear.setBefore hndl' fun q hq => ?_⟩
  · have hne : first l' none ≠ some q := fun hfirst =>
      hdisj q hq q (List.mem_cons_of_mem _ (mem_of_first hfirst)) rfl
    rw [hget q (List.mem_append_left _ hq), relink]
    simp [hne]
  · have hne : last none l ≠ some q := fun hlast =>
      hdisj q (mem_of_last hlast) q (List.mem_cons_of_mem _ hq) rfl
    rw [hget q (List.mem_append_right _ hq), relink]
    simp [hne]

end DList
