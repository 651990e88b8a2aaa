import LinuxChat.Lib.LinkedList
import LinuxChat.Model.UserHeap

/-!
# The pointers are the list

The critical sections of `user.c` are the operations of a linked list with two
end pointers. On pointers that store a list, the lookup finds what the list
has, the update of `create_User` appends, and the one of `remove_User` takes
its entry out. None of them faults.
-/

namespace LinuxChat

open DList

/-- The pointers store the list. -/
structure Stores (s : UserHeap) (l : UserList) : Prop where
  front : s.userFront = first l.entries none
  back : s.userBack = last none l.entries
  linked : Linked s.cells.get? none l.entries none

/-- The cells with `userFront` and `userBack`. -/
def UserHeap.links (s : UserHeap) : Links UserPtr User := ⟨s.cells, s.userFront, s.userBack⟩

def UserHeap.ofLinks (k : Links UserPtr User) : UserHeap := ⟨k.cells, k.front, k.back⟩

variable {s : UserHeap} {l : UserList}

theorem Stores.links (h : Stores s l) : s.links.Stores l := ⟨h.front, h.back, h.linked⟩

theorem stores_ofLinks {k : Links UserPtr User} (h : k.Stores l) : Stores (.ofLinks k) l :=
  ⟨h.front, h.back, h.linked⟩

/-! ## The operations -/

theorem findLoop_links (cells : Cells UserPtr User) (sock n : Nat) (start : Option UserPtr) :
    UserHeap.findLoop cells sock n start =
      Links.findLoop cells (fun u => u.sock = sock) n start := by
  induction n generalizing start with
  | zero => rfl
  | succ n ih =>
      cases start with
      | none => rfl
      | some p =>
          simp only [UserHeap.findLoop, Links.findLoop, decide_eq_true_eq]
          cases cells.get? p with
          | none => rfl
          | some cell => simp only [ih]

theorem createUser_links {p : UserPtr} (hp : p ∉ s.cells.keys) (thread sock : Nat) :
    s.createUser p thread sock hp =
      (s.links.pushBack p (User.fresh thread sock) hp).map .ofLinks := by
  unfold UserHeap.createUser Links.pushBack
  by_cases hfront : s.userFront = none
  · rw [if_pos hfront, if_pos (show s.links.front = none from hfront)]
    rfl
  · rw [if_neg hfront, if_neg (show ¬ s.links.front = none from hfront)]
    simp only [Option.map_bind, Option.bind_eq_bind, Option.map_some, Function.comp_def]
    rfl

theorem unlink_links (p : UserPtr) : s.unlink p = (s.links.unlink p).map .ofLinks := by
  unfold UserHeap.unlink Links.unlink
  show _ = Option.map _ (if s.userFront = s.userBack then _ else if some p = s.userFront then _
    else if some p = s.userBack then _ else _)
  split
  · rfl
  · split
    · simp only [Option.map_bind, Option.bind_eq_bind, Option.map_some, Function.comp_def]
      rfl
    · split
      · simp only [Option.map_bind, Option.bind_eq_bind, Option.map_some, Function.comp_def]
        rfl
      · simp only [Option.map_bind, Option.bind_eq_bind, Option.map_some, Function.comp_def]
        rfl

theorem removeUser_links (p : UserPtr) : s.removeUser p = (s.links.remove p).map .ofLinks := by
  unfold UserHeap.removeUser Links.remove
  rw [unlink_links]
  simp only [Option.map_bind, Option.bind_eq_bind, Option.map_some, Function.comp_def,
    Option.bind_map]
  rfl

theorem Stores.mem_keys (h : Stores s l) {p : UserPtr} (hp : p ∈ l.keys) : p ∈ s.cells.keys :=
  h.links.mem_keys hp

/-- The walk of `f_find_User` ends, and finds what the list has. -/
theorem Stores.findUser (h : Stores s l) (sock : Nat) :
    s.findUser sock = some (l.findUser sock) := by
  rw [UserHeap.findUser, findLoop_links]
  exact h.links.find fun u => u.sock = sock

theorem Stores.createUser (h : Stores s l) {p : UserPtr} (hp : p ∉ s.cells.keys)
    (thread sock : Nat) :
    ∃ s', s.createUser p thread sock hp = some s' ∧
      Stores s' (l.append p (User.fresh thread sock) fun hmem => hp (h.mem_keys hmem)) := by
  obtain ⟨k, hpush, hstores⟩ := h.links.pushBack hp (User.fresh thread sock)
  exact ⟨.ofLinks k, by rw [createUser_links, hpush]; rfl, stores_ofLinks hstores⟩

theorem Stores.removeUser (h : Stores s l) {p : UserPtr} (hp : p ∈ l.keys) :
    ∃ s', s.removeUser p = some s' ∧ Stores s' (l.erase p) := by
  obtain ⟨k, hremove, hstores⟩ := h.links.remove hp
  exact ⟨.ofLinks k, by rw [removeUser_links, hremove]; rfl, stores_ofLinks hstores⟩

end LinuxChat
