import LinuxChat.Logic.Pointers

/-!
# The user list refines a sequence

`create_User` and `remove_User`, two critical sections each, in any order with
the calls of other threads: where no two calls for one socket overlap, what a
lookup has found still holds when its update comes, and each call has the
effect and the result it has on a sequence of users.
-/

namespace LinuxChat

open DList Trace

/-! ## Sequences -/

/-- What a call does to a sequence of users, and what it returns. -/
inductive Effect (l : UserList) : UserOut → UserList → Prop
  | quiet : Effect l .quiet l
  /-- `create_User` returns NULL. -/
  | inUse {p u} (thread) (hu : l.get? p = some u) : Effect l (.created thread u.sock none) l
  /-- `create_User` appends. -/
  | appended {p thread sock} (hp : p ∉ l.keys)
      (hfree : ∀ q u, l.get? q = some u → u.sock ≠ sock) :
      Effect l (.created thread sock (some p)) (l.append p (User.fresh thread sock) hp)
  /-- `remove_User` returns FALSE. -/
  | notFound {sock} (hfree : ∀ q u, l.get? q = some u → u.sock ≠ sock) :
      Effect l (.removed sock false) l
  /-- `remove_User` deletes. -/
  | deleted {p u} (hu : l.get? p = some u) : Effect l (.removed u.sock true) (l.erase p)

/-- `create_User` in one piece. -/
theorem effect_createUser (l : UserList) {p : UserPtr} (hp : p ∉ l.keys) (thread sock : Nat) :
    Effect l (.created thread sock (l.createUser p thread sock hp).1)
      (l.createUser p thread sock hp).2 := by
  unfold UserList.createUser
  cases hfind : l.findUser sock with
  | none => exact .appended hp (UserList.findUser_eq_none.mp hfind)
  | some q =>
      obtain ⟨u, hu, rfl⟩ := UserList.findUser_eq_some hfind
      exact .inUse thread hu

/-- `remove_User` in one piece. -/
theorem effect_removeUser (l : UserList) (sock : Nat) :
    Effect l (.removed sock (l.removeUser sock).1) (l.removeUser sock).2 := by
  unfold UserList.removeUser
  cases hfind : l.findUser sock with
  | none => exact .notFound (UserList.findUser_eq_none.mp hfind)
  | some p =>
      obtain ⟨u, hu, rfl⟩ := UserList.findUser_eq_some hfind
      exact .deleted hu

/-! ## Calls -/

/-- No call begins while another one for its socket is between its two parts. -/
def noOverlap : Guard UserCalls UserAct UserOut :=
  fun _ s a =>
    match a with
    | .createLookup _ _ sock | .removeLookup _ sock => ∀ e ∈ s.calls.entries, e.2.sock ≠ sock
    | .createUpdate _ _ | .removeUpdate _ => True

instance (h : History UserAct UserOut) (s : UserCalls) :
    (a : UserAct) → Decidable (noOverlap h s a)
  | .createLookup .. | .removeLookup .. => inferInstanceAs (Decidable (∀ _ ∈ _, _ ≠ _))
  | .createUpdate .. | .removeUpdate .. => isTrue trivial

/-- What its lookup has found for a call holds. -/
def CallOk (l : UserList) : UserCall → Prop
  | .creating _ sock => l.findUser sock = none
  | .removing sock p => l.findUser sock = some p

/-- The pointers store the sequence, and the calls under way agree with it. -/
structure Agrees (s : UserCalls) (l : UserList) : Prop where
  stores : Stores s.heap l
  unique : l.SockUnique
  ok : ∀ t c, s.calls.get? t = some c → CallOk l c
  distinct : ∀ t t' c c', s.calls.get? t = some c → s.calls.get? t' = some c' →
    c.sock = c'.sock → t = t'

theorem CallOk.other {l l' : UserList} {c : UserCall} (hc : CallOk l c)
    (hfind : l'.findUser c.sock = l.findUser c.sock) : CallOk l' c := by
  cases c with
  | creating thread sock => exact hfind.trans hc
  | removing sock p => exact hfind.trans hc

variable {s : UserCalls} {l : UserList}

/-- A lookup that leaves its call under way. -/
theorem Agrees.lookup (hag : Agrees s l) {t : Nat} {c : UserCall} (ht : t ∉ s.calls.keys)
    (hok : CallOk l c) (hno : ∀ e ∈ s.calls.entries, e.2.sock ≠ c.sock) :
    Agrees { s with calls := s.calls.append t c ht } l := by
  have hother : ∀ t' c', s.calls.get? t' = some c' → c'.sock ≠ c.sock := fun t' c' hc' =>
    hno (t', c') (Table.get?_eq_some_iff.mp hc')
  refine ⟨hag.stores, hag.unique, fun t₁ c₁ h₁ => ?_, fun t₁ t₂ c₁ c₂ h₁ h₂ hsock => ?_⟩
  · rw [Table.get?_append] at h₁
    split at h₁
    · cases h₁; exact hok
    · exact hag.ok t₁ c₁ h₁
  · rw [Table.get?_append] at h₁ h₂
    split at h₁ <;> split at h₂
    · rename_i heq₁ heq₂; rw [heq₁, heq₂]
    · cases h₁; exact absurd hsock.symm (hother t₂ c₂ h₂)
    · cases h₂; exact absurd hsock (hother t₁ c₁ h₁)
    · exact hag.distinct t₁ t₂ c₁ c₂ h₁ h₂ hsock

/-- An update, which ends its call. -/
theorem Agrees.update (hag : Agrees s l) {t : Nat} {c : UserCall} (hc : s.calls.get? t = some c)
    {heap : UserHeap} {l' : UserList} (hstores : Stores heap l') (hunique : l'.SockUnique)
    (hfind : ∀ sock, sock ≠ c.sock → l'.findUser sock = l.findUser sock) :
    Agrees ⟨heap, s.calls.erase t⟩ l' := by
  have hget : ∀ t' c', (s.calls.erase t).get? t' = some c' →
      t' ≠ t ∧ s.calls.get? t' = some c' := by
    intro t' c' hc'
    rw [Table.get?_erase] at hc'
    split at hc'
    · cases hc'
    · exact ⟨‹_›, hc'⟩
  refine ⟨hstores, hunique, fun t₁ c₁ h₁ => ?_, fun t₁ t₂ c₁ c₂ h₁ h₂ hsock => ?_⟩
  · obtain ⟨hne, h₁⟩ := hget t₁ c₁ h₁
    exact (hag.ok t₁ c₁ h₁).other
      (hfind c₁.sock fun hsock => hne (hag.distinct t₁ t c₁ c h₁ hc hsock))
  · exact hag.distinct t₁ t₂ c₁ c₂ (hget t₁ c₁ h₁).2 (hget t₂ c₂ h₂).2 hsock

/-- Every critical section has the effect its call has on the sequence. -/
theorem agrees_step {h : History UserAct UserOut} {a : UserAct} {s' : UserCalls} {o : UserOut}
    (hag : Agrees s l) (hg : noOverlap h s a) (hstep : userStep s a = some (s', o)) :
    ∃ l', Effect l o l' ∧ Agrees s' l' := by
  cases a with
  | createLookup t thread sock =>
      simp only [userStep, hag.stores.findUser] at hstep
      split at hstep
      · cases hstep
      · rename_i ht
        cases hfind : l.findUser sock with
        | none =>
            rw [hfind] at hstep
            cases hstep
            exact ⟨l, .quiet, hag.lookup ht (c := .creating thread sock) hfind hg⟩
        | some p =>
            rw [hfind] at hstep
            cases hstep
            obtain ⟨u, hu, rfl⟩ := UserList.findUser_eq_some hfind
            exact ⟨l, .inUse thread hu, hag⟩
  | removeLookup t sock =>
      simp only [userStep, hag.stores.findUser] at hstep
      split at hstep
      · cases hstep
      · rename_i ht
        cases hfind : l.findUser sock with
        | none =>
            rw [hfind] at hstep
            cases hstep
            exact ⟨l, .notFound (UserList.findUser_eq_none.mp hfind), hag⟩
        | some p =>
            rw [hfind] at hstep
            cases hstep
            exact ⟨l, .quiet, hag.lookup ht (c := .removing sock p) hfind hg⟩
  | createUpdate t p =>
      simp only [userStep] at hstep
      split at hstep
      · rename_i thread sock hc
        split at hstep
        · cases hstep
        · rename_i hp
          have hfree : l.findUser sock = none := hag.ok t _ hc
          obtain ⟨heap, hcreate, hstores⟩ := hag.stores.createUser hp thread sock
          rw [hcreate] at hstep
          cases hstep
          refine ⟨_, .appended _ (UserList.findUser_eq_none.mp hfree),
            hag.update hc hstores (hag.unique.append hfree _) fun sock' hne => ?_⟩
          exact UserList.findUser_append_of_ne _ hne.symm
      · cases hstep
  | removeUpdate t =>
      simp only [userStep] at hstep
      split at hstep
      · rename_i sock p hc
        have hfind : l.findUser sock = some p := hag.ok t _ hc
        obtain ⟨u, hu, rfl⟩ := UserList.findUser_eq_some hfind
        obtain ⟨heap, hremove, hstores⟩ :=
          hag.stores.removeUser (Table.mem_keys_iff.mpr ⟨u, hu⟩)
        rw [hremove] at hstep
        cases hstep
        refine ⟨_, .deleted hu, hag.update hc hstores (hag.unique.erase p) fun sock' hne => ?_⟩
        exact UserList.findUser_erase_of_ne hu hne.symm
      · cases hstep

/-! ## The result -/

/-- The pointers are a list of these users: `next` leads from `userFront` over each entry once
and then to null, `prev` leads from `userBack` over the same entries in reverse and then to
null, each cell holds its user, and the sockets are distinct. -/
structure IsList (s : UserHeap) (l : UserList) : Prop where
  forward : Walk (fun p => s.cells.next (some p)) s.userFront l.keys
  backward : Walk (fun p => s.cells.prev (some p)) s.userBack l.keys.reverse
  once : l.keys.Nodup
  fields : ∀ p u, l.get? p = some u → (s.cells.get? p).map Cell.data = some u
  sockets : l.SockUnique

theorem Agrees.isList (hag : Agrees s l) : IsList s.heap l where
  forward := by
    rw [hag.stores.front]
    exact hag.stores.linked.walk_next
  backward := by
    rw [hag.stores.back]
    exact hag.stores.linked.walk_prev
  once := l.nodup
  fields p u hu := by
    obtain ⟨c, hc, hdata⟩ := hag.stores.linked.exists_cell (Table.get?_eq_some_iff.mp hu)
    rw [hc, Option.map_some, hdata]
  sockets := hag.unique

/-- **The user list refines a sequence.** In every run in which no two calls for one socket
overlap, every call has its effect on a sequence of users, none of them a fault, and the
pointers are a list of the users in that sequence. -/
theorem refines_sequence {h : History UserAct UserOut} (hrun : Run userMachine noOverlap h s) :
    ∃ l, Steps Effect Table.empty (h.map Prod.snd) l ∧ IsList s.heap l := by
  have hinit : Agrees userMachine.init Table.empty := by
    refine ⟨⟨rfl, rfl, trivial⟩, ?_, ?_, ?_⟩
    · intro p q u v hu
      cases hu
    · intro t c hc
      cases hc
    · intro t t' c c' hc
      cases hc
  obtain ⟨l, hsteps, hag⟩ := hrun.simulation hinit
    fun h s a s' o l hag hg hstep => agrees_step hag hg hstep
  exact ⟨l, hsteps, hag.isList⟩

/-- Three sockets are added and the second is removed, their calls inside each other. -/
theorem refines_sequence_three :
    ∃ h s l, Run userMachine noOverlap h s ∧ s.heap.userFront = some 10 ∧
      s.heap.userBack = some 30 ∧ s.heap.cells.next (some 10) = some (some 30) ∧
      Steps Effect Table.empty (h.map Prod.snd) l ∧ IsList s.heap l := by
  obtain ⟨h, s, hrun, hP⟩ := Run.exists_of_replay (M := userMachine) (G := noOverlap)
    [.createLookup 1 1 5, .createLookup 2 2 6, .createUpdate 1 10, .createLookup 3 3 7,
      .createUpdate 2 20, .removeLookup 2 6, .createUpdate 3 30, .removeUpdate 2]
    (fun _ s => decide (s.heap.userFront = some 10) && decide (s.heap.userBack = some 30) &&
      decide (s.heap.cells.next (some 10) = some (some 30))) (by decide +kernel)
  simp only [Bool.and_eq_true, decide_eq_true_eq] at hP
  obtain ⟨⟨hfront, hback⟩, hnext⟩ := hP
  obtain ⟨l, hsteps, hlist⟩ := refines_sequence hrun
  exact ⟨h, s, l, hrun, hfront, hback, hnext, hsteps, hlist⟩

end LinuxChat
