import Mathlib.Data.List.Find
import LinuxChat.Lib.Table
import LinuxChat.Model.Defines

/-!
# The user list

One entry per connection, in the order of `userFront`, `next`, ..., under the
address `malloc` gave it. The fields are those of `struct User`; its links are
the order of the table.
-/

namespace LinuxChat

open CMem

/-- A `User*`. -/
abbrev UserPtr := Nat

/-- `struct User`, its links aside. -/
structure User where
  thread : Nat
  sock : Nat
  name : Buf netNameLenPlus
  nameLength : Nat
  loggedIn : Bool
  shouldShutdown : Bool
  deriving DecidableEq

namespace User

/-- The C string in `name`. -/
def cname (u : User) : List UInt8 := cstr u.name.bytes

/-- The entry `create_User` makes: all zero but for thread and socket. -/
def fresh (thread sock : Nat) : User := ⟨thread, sock, Buf.zero netNameLenPlus, 0, false, false⟩

/-- `login_User` on its entry: the name is stored over the old one, which is not cleared,
and the length is the size passed. -/
def login (u : User) (name : List UInt8) (size : Nat) : User :=
  { u with name := u.name.write 0 (strncpy name size), loggedIn := true, nameLength := size }

/-- `user_should_shutdown` on its entry. -/
def flag (u : User) : User := { u with shouldShutdown := true }

/-- `logout_user` on its entry. -/
def logout (u : User) : User := { u with loggedIn := false }

@[simp] theorem cname_fresh (thread sock : Nat) : (fresh thread sock).cname = [] := by
  simp [cname, fresh]

@[simp] theorem cname_flag (u : User) : u.flag.cname = u.cname := rfl

@[simp] theorem cname_logout (u : User) : u.logout.cname = u.cname := rfl

/-- What a login leaves in the name buffer: the copied bytes, and behind them what the
buffer held before. -/
theorem bytes_login {u : User} {name : List UInt8} {size : Nat} (h : size ≤ netNameLenPlus) :
    (u.login name size).name.bytes = strncpy name size ++ u.name.bytes.drop size := by
  have := @Buf.bytes_write _ u.name 0 (strncpy name size) (by simpa using h)
  simpa [login] using this

/-- The first `size` bytes of the name are the name that was passed. -/
theorem cstr_take_login {u : User} {name : List UInt8} {size : Nat} (h : size ≤ netNameLenPlus) :
    cstr ((u.login name size).name.bytes.take size) = cstr (name.take size) := by
  rw [bytes_login h, List.take_left' (length_strncpy name size), cstr_strncpy]

/-- A login stores the name that was passed if the copy ends in a NUL or runs up to one. -/
theorem cname_login {u : User} {name : List UInt8} {size : Nat} (h : size ≤ netNameLenPlus)
    (htail : (cstr (name.take size)).length < size ∨ cstr (u.name.bytes.drop size) = []) :
    (u.login name size).cname = cstr (name.take size) := by
  rw [cname, bytes_login h]
  by_cases hz : 0 ∈ strncpy name size
  · rw [cstr_append_of_mem hz, cstr_strncpy]
  · have hfull := mt zero_mem_strncpy.mpr hz
    rw [cstr_append_of_notMem hz, (htail.resolve_left hfull), List.append_nil,
      ← cstr_strncpy, cstr_eq_self hz]

end User

/-- The list from `userFront` on. -/
abbrev UserList := Table UserPtr User

namespace UserList

/-- `f_find_User`. -/
def findUser (l : UserList) (sock : Nat) : Option UserPtr :=
  (l.entries.find? fun e => e.2.sock = sock).map Prod.fst

/-- `create_User` with the address `malloc` returns: refused (NULL) if the socket is in
use. -/
def createUser (l : UserList) (p : UserPtr) (thread sock : Nat) (h : p ∉ l.keys) :
    Option UserPtr × UserList :=
  if (l.findUser sock).isSome then (none, l)
  else (some p, l.append p (User.fresh thread sock) h)

/-- `remove_User`. -/
def removeUser (l : UserList) (sock : Nat) : Bool × UserList :=
  match l.findUser sock with
  | none => (false, l)
  | some p => (true, l.erase p)

/-- `is_name_free`: no logged-in entry has the C string at `name`. -/
def isNameFree (l : UserList) (name : List UInt8) : Bool :=
  !l.entries.any fun e => e.2.cname == cstr name && e.2.loggedIn

/-- `login_User`. -/
def loginUser (l : UserList) (p : UserPtr) (name : List UInt8) (size : Nat) : UserList :=
  l.modify p fun u => u.login name size

/-- `user_should_shutdown`. -/
def userShouldShutdown (l : UserList) (p : UserPtr) : UserList := l.modify p User.flag

/-- `logout_user`. -/
def logoutUser (l : UserList) (p : UserPtr) : UserList := l.modify p User.logout

/-- The targets of an `ITERATE_OVER_USERS` loop that asks for `is_User_LoggedIn`. -/
def loggedInUsers (l : UserList) : List (UserPtr × User) := l.entries.filter fun e => e.2.loggedIn

theorem mem_loggedInUsers {l : UserList} {p : UserPtr} {u : User} :
    (p, u) ∈ l.loggedInUsers ↔ l.get? p = some u ∧ u.loggedIn = true := by
  rw [loggedInUsers, List.mem_filter, Table.get?_eq_some_iff]

theorem findUser_eq_some {l : UserList} {sock : Nat} {p : UserPtr} (h : l.findUser sock = some p) :
    ∃ u, l.get? p = some u ∧ u.sock = sock := by
  obtain ⟨⟨q, u⟩, hfind, rfl⟩ := Option.map_eq_some_iff.mp h
  exact ⟨u, Table.get?_eq_some_iff.mpr (List.mem_of_find?_eq_some hfind),
    by simpa using List.find?_some hfind⟩

theorem findUser_eq_none {l : UserList} {sock : Nat} :
    l.findUser sock = none ↔ ∀ p u, l.get? p = some u → u.sock ≠ sock := by
  simp only [findUser, Option.map_eq_none_iff, List.find?_eq_none, decide_eq_true_eq, Prod.forall,
    Table.get?_eq_some_iff]

/-- No two entries have one socket. -/
def SockUnique (l : UserList) : Prop :=
  ∀ p q u v, l.get? p = some u → l.get? q = some v → u.sock = v.sock → p = q

/-- `remove_User` unlinks the entry of that socket, where there is only one. -/
theorem removeUser_of_sockUnique {l : UserList} (hl : SockUnique l) {p : UserPtr} {u : User}
    (hu : l.get? p = some u) : l.removeUser u.sock = (true, l.erase p) := by
  unfold removeUser
  cases hf : l.findUser u.sock with
  | none => exact absurd rfl (findUser_eq_none.mp hf p u hu)
  | some q =>
      obtain ⟨v, hv, hsock⟩ := findUser_eq_some hf
      rw [hl q p v u hv hu hsock]

theorem SockUnique.modify {l : UserList} (hl : SockUnique l) {f : User → User}
    (hf : ∀ u, (f u).sock = u.sock) (p : UserPtr) : SockUnique (Table.modify l p f) := by
  intro a b u v hu hv hsock
  obtain ⟨u₀, hu₀, rfl⟩ := Table.exists_of_get?_modify hu
  obtain ⟨v₀, hv₀, rfl⟩ := Table.exists_of_get?_modify hv
  exact hl a b u₀ v₀ hu₀ hv₀ (by split at hsock <;> split at hsock <;> simpa [hf] using hsock)

theorem SockUnique.append {l : UserList} (hl : SockUnique l) {u : User}
    (hu : l.findUser u.sock = none) {p : UserPtr} (hp : p ∉ l.keys) :
    SockUnique (Table.append l p u hp) := by
  have hold := findUser_eq_none.mp hu
  intro a b v w hv hw hsock
  rw [Table.get?_append] at hv hw
  by_cases ha : a = p <;> by_cases hb : b = p
  · rw [ha, hb]
  · rw [if_pos ha, Option.some.injEq] at hv
    rw [if_neg hb] at hw
    exact absurd (by rw [hv, hsock]) (hold b w hw)
  · rw [if_neg ha] at hv
    rw [if_pos hb, Option.some.injEq] at hw
    exact absurd (by rw [hw, hsock]) (hold a v hv)
  · rw [if_neg ha] at hv
    rw [if_neg hb] at hw
    exact hl a b v w hv hw hsock

theorem SockUnique.erase {l : UserList} (hl : SockUnique l) (p : UserPtr) :
    SockUnique (Table.erase l p) := by
  intro a b v w hv hw hsock
  rw [Table.get?_erase] at hv hw
  split at hv <;> split at hw <;> first | exact hl a b v w hv hw hsock | cases hv | cases hw

theorem findUser_append_of_ne {l : UserList} {p : UserPtr} {u : User} {sock : Nat}
    (hp : p ∉ l.keys) (hne : u.sock ≠ sock) :
    findUser (Table.append l p u hp) sock = l.findUser sock := by
  simp [findUser, List.find?_append, hne]

theorem findUser_erase_of_ne {l : UserList} {p : UserPtr} {u : User} {sock : Nat}
    (hu : l.get? p = some u) (hne : u.sock ≠ sock) :
    findUser (Table.erase l p) sock = l.findUser sock := by
  simp only [findUser, Table.entries_erase, List.find?_filter]
  refine congrArg _ (List.find?_congr fun e he => ?_)
  -- The entry under `p` is the one of `u`, which has another socket.
  by_cases hep : e.1 = p
  · have hev : l.get? p = some e.2 := Table.get?_eq_some_iff.mpr (by rw [← hep]; exact he)
    rw [hu, Option.some.injEq] at hev
    simp [← hev, hne]
  · simp [hep]

theorem isNameFree_iff {l : UserList} {name : List UInt8} :
    l.isNameFree name = true ↔
      ∀ p u, l.get? p = some u → u.loggedIn = true → u.cname ≠ cstr name := by
  simp only [isNameFree, Bool.not_eq_true', List.any_eq_false, Bool.and_eq_true, beq_iff_eq,
    not_and, Prod.forall, ← Table.get?_eq_some_iff]
  exact ⟨fun h p u hp hl hn => h p u hp hn hl, fun h p u hp hn hl => h p u hp hl hn⟩

end UserList

end LinuxChat
